import SqlTokens.Config.Session
import SqlTokens.Lexer.Session
import SqlTokens.Main
import SqlTokens.Proofs.Substitution
import SqlTokens.Template.Record
import SqlTokens.Proofs.Stepwise.Number
import SqlTokens.Proofs.Stepwise.Rules
import SqlTokens.Proofs.Stepwise.Session
import SqlTokens.Proofs.Safety
import SqlTokens.Proofs.Utf8
import SqlTokens.Proofs.Visibility
import SqlTokens.Proofs.Numbering
import SqlTokens.Proofs.Binding
import SqlTokens.Proofs.Canonical
import SqlTokens.Proofs.Diagnosis
import SqlTokens.Proofs.View
import SqlTokens.Proofs.EntryPoints
import SqlTokens.Proofs.Progress
import SqlTokens.Proofs.Counting
import SqlTokens.Proofs.Horizon
import SqlTokens.Proofs.Suffix
import SqlTokens.Proofs.Filler
import SqlTokens.Proofs.LetterCase
import SqlTokens.Proofs.Memory
import SqlTokens.Proofs.Truncation
import SqlTokens.Proofs.TextPreservation
import SqlTokens.Proofs.Rendering
import SqlTokens.Proofs.Literals
import SqlTokens.Proofs.CommentEnd
import SqlTokens.Proofs.Numbers
import SqlTokens.Proofs.Listing
import SqlTokens.Proofs.Words
import SqlTokens.Proofs.PlaceholderLines
import SqlTokens.Proofs.Delivery
import SqlTokens.Proofs.LiteralText
import SqlTokens.Proofs.Requests
import SqlTokens.Proofs.Layers
import SqlTokens.Proofs.Atomicity
import SqlTokens.Proofs.Account
import SqlTokens.Proofs.CommandLine
import SqlTokens.Proofs.Saving
