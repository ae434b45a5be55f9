import Twisty.Text.Blank
import Twisty.Text.Count
import Twisty.Text.Lines
import Twisty.Text.Quoted
import Twisty.Text.Radix
import Twisty.Text.Split
import Twisty.Face
import Twisty.PerFace
import Twisty.Palette
import Twisty.Grid
import Twisty.Move.Amount
import Twisty.Move.Letter
import Twisty.Move.Basic
import Twisty.Move.Reader
import Twisty.Algorithm
import Twisty.Notation.Fault
import Twisty.Notation.Token
import Twisty.Notation.Parser
import Twisty.Facelets.Basic
import Twisty.Facelets.Turn
import Twisty.Facelets.Net
import Twisty.Facelets.Fingerprint
import Twisty.Cube.Fault
import Twisty.Cube.Basic
import Twisty.Source
import Twisty.Generator
import Twisty.Scramble
import Twisty.Cube.Operation
import Twisty.Layout.Corner
import Twisty.Layout.Fault
import Twisty.Layout.Shape
import Twisty.Layout.Scheme
import Twisty.Settings.Basic
import Twisty.Settings.Entry
import Twisty.CommandLine.Event
import Twisty.CommandLine.Help
import Twisty.CommandLine.Request
import Twisty.CommandLine.Command
import Twisty.CommandLine.Tools
import Twisty.CommandLine.Run
import Twisty.Main
import Twisty.Proofs.Space
import Twisty.Proofs.Spot
import Twisty.Proofs.Carrying
import Twisty.Proofs.Pieces
import Twisty.Proofs.SchemeRecovery
import Twisty.Proofs.Genuine
import Twisty.Proofs.Composed
import Twisty.Proofs.Rearrangement
import Twisty.Proofs.Reachable
import Twisty.Proofs.Validity
import Twisty.Proofs.Undoing
import Twisty.Proofs.Integrity
import Twisty.Proofs.Scrambling
import Twisty.Proofs.Words
import Twisty.Proofs.Phrase
import Twisty.Proofs.Expansion
import Twisty.Proofs.Canonical
import Twisty.Proofs.Atomicity
import Twisty.Proofs.Options
import Twisty.Proofs.Inverting
import Twisty.Proofs.Spelling
import Twisty.Proofs.Condensed
import Twisty.Proofs.Parentheses
import Twisty.Proofs.Loading
import Twisty.Proofs.Printing
import Twisty.Proofs.SingleMoves
import Twisty.Proofs.FaultTexts
import Twisty.Proofs.FirstDefect
import Twisty.Proofs.Recoloring
import Twisty.Proofs.Parallel
import Twisty.Proofs.Unsolving
import Twisty.Proofs.Unfolding
import Twisty.Proofs.SixLayers
import Twisty.Proofs.Commutator
import Twisty.Proofs.RowMajor
import Twisty.Proofs.Splitting
import Twisty.Proofs.EntryLines
import Twisty.Proofs.SettingsFiles
import Twisty.Proofs.Repeating
