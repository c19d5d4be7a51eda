import GrammarDesk.Editor.Service
import GrammarDesk.Main
import GrammarDesk.Proofs.Match.Account
import GrammarDesk.Proofs.Match.Cap
import GrammarDesk.Proofs.Match.Language
import GrammarDesk.Proofs.Match.Prefix
import GrammarDesk.Proofs.Match.Trace
import GrammarDesk.Proofs.Match.Likeness
import GrammarDesk.Proofs.Match.Redundancy
import GrammarDesk.Proofs.Reading.Complete
import GrammarDesk.Proofs.Reading.Sentence
import GrammarDesk.Proofs.Grammar.Compilation
import GrammarDesk.Proofs.Sample.Literals
import GrammarDesk.Proofs.Grammar.Trimming
import GrammarDesk.Proofs.Grammar.Options
import GrammarDesk.Proofs.Live.Report
import GrammarDesk.Proofs.Live.Confirmation
import GrammarDesk.Proofs.Analysis.Tracking
import GrammarDesk.Proofs.Analysis.Usable
import GrammarDesk.Proofs.Live.Highlighter
import GrammarDesk.Proofs.Live.Session
import GrammarDesk.Proofs.Live.Waiting
import GrammarDesk.Proofs.Live.Independence
import GrammarDesk.Proofs.Live.Debounce
import GrammarDesk.Proofs.Live.Staleness
import GrammarDesk.Proofs.Editor.Interleaving
import GrammarDesk.Proofs.Editor.Highlights
import GrammarDesk.Proofs.Editor.Delivery
import GrammarDesk.Proofs.Editor.Publication
import GrammarDesk.Proofs.Reading.Leaves
import GrammarDesk.Proofs.Reading.Story
import GrammarDesk.Proofs.Reading.Halting
import GrammarDesk.Proofs.Reading.Trimming
import GrammarDesk.Proofs.Reading.Alternatives
import GrammarDesk.Proofs.Text.Lines
import GrammarDesk.Proofs.Analysis.Findings
import GrammarDesk.Proofs.Analysis.Alternatives
import GrammarDesk.Proofs.Analysis.Placement
import GrammarDesk.Proofs.Analysis.Brackets
import GrammarDesk.Proofs.Token.Lexemes
import GrammarDesk.Proofs.Reading.Squeezing
import GrammarDesk.Proofs.Token.Spacing
import GrammarDesk.Proofs.Live.Terminals
import GrammarDesk.Proofs.Live.Respacing
import GrammarDesk.Proofs.Text.Places
import GrammarDesk.Proofs.Analysis.Locations
import GrammarDesk.Proofs.Analysis.Completion
import GrammarDesk.Proofs.Match.Idempotence
import GrammarDesk.Proofs.Analysis.Pairing
import GrammarDesk.Proofs.Match.Repetition
