import CodeMarkup.Main
import CodeMarkup.Proofs.Attribution.Policy
import CodeMarkup.Proofs.Spans
import CodeMarkup.Proofs.Trivia.Insensitivity
import CodeMarkup.Proofs.Lexing.Comments
import CodeMarkup.Proofs.Reachability
import CodeMarkup.Proofs.Schema.Registry
import CodeMarkup.Proofs.Nesting.Bound
import CodeMarkup.Proofs.Safety.FrontEnd
import CodeMarkup.Proofs.ErrorPositions
import CodeMarkup.Proofs.Positions
import CodeMarkup.Proofs.MarkupOperands
import CodeMarkup.Proofs.Lookahead.Locals
import CodeMarkup.Proofs.Entries
import CodeMarkup.Proofs.Lexing.Templates
import CodeMarkup.Proofs.Lexing.Calls
import CodeMarkup.Proofs.Lexing.Translation
import CodeMarkup.Proofs.Lexing.Iteration
import CodeMarkup.Proofs.Lexing.Spacing
import CodeMarkup.Proofs.Siblings
import CodeMarkup.Proofs.Attribution.Order
import CodeMarkup.Proofs.Schema.Refusals
import CodeMarkup.Proofs.Terms.Lexing
import CodeMarkup.Proofs.Terms.Parsing
import CodeMarkup.Proofs.Schema.Descriptors
import CodeMarkup.Proofs.Lexing.Numerals
import CodeMarkup.Proofs.Indentation
import CodeMarkup.Proofs.DedentedText
import CodeMarkup.Proofs.Lexing.LineEnds
import CodeMarkup.Proofs.Walks.Listings
import CodeMarkup.Proofs.Lexing.NumberTokens
import CodeMarkup.Proofs.AnnotatedBegins
import CodeMarkup.Proofs.Levels.Productions
