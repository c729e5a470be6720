import CodeMarkup.Listing.Format
import CodeMarkup.Listing.Nodes

namespace CodeMarkup

/-!
# Listings of comments

Comments in the order of the text, one on a line, before any of them is given to a node.
-/

namespace Comment

/-- A comment for a reader. -/
def listingText (comment : Comment) : String :=
  comment.extent.first.text ++ "-" ++ comment.extent.last.text ++ " " ++ comment.kind.name ++ ": "
    ++ comment.trimmed

/-- A comment for a program. -/
def listingJson (comment : Comment) : JsonValue :=
  .object [
    ("kind", .string comment.kind.name),
    ("content", .string comment.content),
    ("begin", .string comment.extent.first.text),
    ("end", .string comment.extent.last.text),
    ("span_start", .number comment.span.start),
    ("span_end", .number comment.span.stop)]

/-- A comment on its line. -/
def listing (comment : Comment) : OutputFormat → String
  | .text => comment.listingText
  | .json => comment.listingJson.render

end Comment

end CodeMarkup
