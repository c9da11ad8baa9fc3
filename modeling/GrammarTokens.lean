import GrammarTokens.Lexer
import GrammarTokens.Report
import GrammarTokens.TokenJson
import GrammarTokens.Proofs.Outlook
import GrammarTokens.Proofs.Positions
import GrammarTokens.Proofs.Braces
import GrammarTokens.Proofs.Grammar
import GrammarTokens.Proofs.LexemeReading
import GrammarTokens.Proofs.Factorization
import GrammarTokens.Proofs.Drawing
import GrammarTokens.Proofs.Tokenizing
import GrammarTokens.Proofs.Delivery
import GrammarTokens.Proofs.Decoding
import GrammarTokens.Proofs.Agreement
import GrammarTokens.Proofs.Streaming
import GrammarTokens.Proofs.Runs
import GrammarTokens.Proofs.Calls
import GrammarTokens.Proofs.Tiling
import GrammarTokens.Proofs.Limits
import GrammarTokens.Proofs.Failures
import GrammarTokens.Proofs.Items
import GrammarTokens.Proofs.Restart
import GrammarTokens.Proofs.CommonFront
import GrammarTokens.Proofs.Printing
import GrammarTokens.Proofs.TextLines
import GrammarTokens.Proofs.Excerpts
import GrammarTokens.Proofs.Pointing
import GrammarTokens.Proofs.Comments
import GrammarTokens.Proofs.Bodies
import GrammarTokens.Proofs.Conservation
import GrammarTokens.Proofs.Halting
import GrammarTokens.Proofs.Mending
import GrammarTokens.Proofs.Windows
import GrammarTokens.Proofs.FeedMaps
import GrammarTokens.Proofs.Reads
import GrammarTokens.Proofs.Progress
import GrammarTokens.Proofs.Cursors
import GrammarTokens.Proofs.PositionOrder
import GrammarTokens.Proofs.JsonForms
