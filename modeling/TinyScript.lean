import TinyScript.Main
import TinyScript.Token.Cursor
import TinyScript.Proofs.Grammar
import TinyScript.Proofs.Reading
import TinyScript.Proofs.Completeness
import TinyScript.Proofs.Soundness
import TinyScript.Proofs.CorrectPrefix
import TinyScript.Proofs.Derivation
import TinyScript.Proofs.Execution
import TinyScript.Proofs.Labels
import TinyScript.Proofs.Bindings
import TinyScript.Proofs.ScopeModes
import TinyScript.Proofs.Stretches
import TinyScript.Proofs.Lexical
import TinyScript.Proofs.Tiling
import TinyScript.Proofs.LongestMatch
import TinyScript.Proofs.Doubles
import TinyScript.Proofs.Decimals
import TinyScript.Proofs.Lines
import TinyScript.Proofs.Session
import TinyScript.Proofs.ScopeDiscipline
import TinyScript.Proofs.Literals
import TinyScript.Proofs.Attempts
import TinyScript.Proofs.Recovery
import TinyScript.Proofs.Sexp
import TinyScript.Proofs.Printing
import TinyScript.Proofs.Unambiguous
import TinyScript.Proofs.Json
import TinyScript.Proofs.JsonReport
import TinyScript.Proofs.Likeness
import TinyScript.Proofs.Sameness
import TinyScript.Proofs.Names
import TinyScript.Proofs.Renaming
import TinyScript.Proofs.Culprits
import TinyScript.Proofs.Outcomes
import TinyScript.Proofs.ErrorTokens
import TinyScript.Proofs.LineNumbers
import TinyScript.Proofs.EmptyScopes
import TinyScript.Proofs.CountingLoop
import TinyScript.Proofs.CursorWalk
import TinyScript.Proofs.Joining
import TinyScript.Proofs.Concatenation
import TinyScript.Proofs.Effects
import TinyScript.Proofs.StrayCharacters
import TinyScript.Proofs.ScopeStack
import TinyScript.Proofs.ReportLines
