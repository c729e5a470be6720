namespace CodeMarkup

/-!
# Keywords

The reserved words of the code grammar.  Each has one spelling, and no two share one.
-/

/-- A reserved word. -/
inductive Keyword where
  | kwAbstract | kwAssert | kwBoolean | kwBreak | kwByte | kwCase | kwCatch | kwChar | kwClass
  | kwContinue | kwDefault | kwDo | kwDouble | kwElse | kwEnum | kwExtends | kwFalse | kwFinal
  | kwFinally | kwFloat | kwFor | kwIf | kwImplements | kwImport | kwInstanceof | kwInt
  | kwInterface | kwLong | kwNative | kwNew | kwNull | kwPackage | kwPrivate | kwProtected
  | kwPublic | kwReturn | kwShort | kwStatic | kwStrictfp | kwSuper | kwSwitch | kwSynchronized
  | kwThis | kwThrow | kwThrows | kwTransient | kwTrue | kwTry | kwVoid | kwVolatile | kwWhile
  deriving DecidableEq, Repr

namespace Keyword

/-- The spelling of a keyword. -/
def text : Keyword → String
  | .kwAbstract => "abstract"
  | .kwAssert => "assert"
  | .kwBoolean => "boolean"
  | .kwBreak => "break"
  | .kwByte => "byte"
  | .kwCase => "case"
  | .kwCatch => "catch"
  | .kwChar => "char"
  | .kwClass => "class"
  | .kwContinue => "continue"
  | .kwDefault => "default"
  | .kwDo => "do"
  | .kwDouble => "double"
  | .kwElse => "else"
  | .kwEnum => "enum"
  | .kwExtends => "extends"
  | .kwFalse => "false"
  | .kwFinal => "final"
  | .kwFinally => "finally"
  | .kwFloat => "float"
  | .kwFor => "for"
  | .kwIf => "if"
  | .kwImplements => "implements"
  | .kwImport => "import"
  | .kwInstanceof => "instanceof"
  | .kwInt => "int"
  | .kwInterface => "interface"
  | .kwLong => "long"
  | .kwNative => "native"
  | .kwNew => "new"
  | .kwNull => "null"
  | .kwPackage => "package"
  | .kwPrivate => "private"
  | .kwProtected => "protected"
  | .kwPublic => "public"
  | .kwReturn => "return"
  | .kwShort => "short"
  | .kwStatic => "static"
  | .kwStrictfp => "strictfp"
  | .kwSuper => "super"
  | .kwSwitch => "switch"
  | .kwSynchronized => "synchronized"
  | .kwThis => "this"
  | .kwThrow => "throw"
  | .kwThrows => "throws"
  | .kwTransient => "transient"
  | .kwTrue => "true"
  | .kwTry => "try"
  | .kwVoid => "void"
  | .kwVolatile => "volatile"
  | .kwWhile => "while"

/-- Every keyword, in alphabetical order. -/
def all : List Keyword :=
  [.kwAbstract, .kwAssert, .kwBoolean, .kwBreak, .kwByte, .kwCase, .kwCatch, .kwChar, .kwClass,
    .kwContinue, .kwDefault, .kwDo, .kwDouble, .kwElse, .kwEnum, .kwExtends, .kwFalse, .kwFinal,
    .kwFinally, .kwFloat, .kwFor, .kwIf, .kwImplements, .kwImport, .kwInstanceof, .kwInt,
    .kwInterface, .kwLong, .kwNative, .kwNew, .kwNull, .kwPackage, .kwPrivate, .kwProtected,
    .kwPublic, .kwReturn, .kwShort, .kwStatic, .kwStrictfp, .kwSuper, .kwSwitch, .kwSynchronized,
    .kwThis, .kwThrow, .kwThrows, .kwTransient, .kwTrue, .kwTry, .kwVoid, .kwVolatile, .kwWhile]

/-- The keyword with a given spelling. -/
def ofText? (text : String) : Option Keyword :=
  all.find? (·.text == text)

/-- The names of primitive types; `void` is not one. -/
def isPrimitive : Keyword → Bool
  | .kwBoolean | .kwByte | .kwChar | .kwDouble | .kwFloat | .kwInt | .kwLong | .kwShort => true
  | _ => false

/-- The words that may modify a declaration. -/
def isModifier : Keyword → Bool
  | .kwAbstract | .kwFinal | .kwNative | .kwPrivate | .kwProtected | .kwPublic | .kwStatic
  | .kwStrictfp | .kwSynchronized | .kwTransient | .kwVolatile | .kwDefault => true
  | _ => false

theorem mem_all (k : Keyword) : k ∈ all := by
  cases k <;> decide

/-- Looking up a spelling finds its keyword. -/
theorem ofText?_text (k : Keyword) : ofText? k.text = some k := by
  cases k <;> decide

end Keyword

end CodeMarkup
