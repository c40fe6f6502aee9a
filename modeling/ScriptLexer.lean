import ScriptLexer.Segment
import ScriptLexer.Token
import ScriptLexer.Decimal
import ScriptLexer.Fault
import ScriptLexer.Scan
import ScriptLexer.Cursor
import ScriptLexer.Session
import ScriptLexer.Rendering
import ScriptLexer.Main
import ScriptLexer.Proofs.Cleaning
import ScriptLexer.Proofs.Coverage
import ScriptLexer.Proofs.Listings
import ScriptLexer.Proofs.Outcomes
import ScriptLexer.Proofs.Sessions
import ScriptLexer.Proofs.Spacing
import ScriptLexer.Proofs.Json.Printing
import ScriptLexer.Proofs.Insertion
import ScriptLexer.Proofs.Binary64.Grid
import ScriptLexer.Proofs.Snippets
import ScriptLexer.Proofs.Binary64.Rounds
import ScriptLexer.Proofs.NumberTokens
import ScriptLexer.Proofs.NumberText
import ScriptLexer.Proofs.LineEndings
import ScriptLexer.Proofs.StringBodies
import ScriptLexer.Proofs.Cursor.Bounds
import ScriptLexer.Proofs.Cursor.Taking
import ScriptLexer.Proofs.Cursor.Agreement
import ScriptLexer.Proofs.Cursor.Literals
import ScriptLexer.Proofs.TokenShapes
