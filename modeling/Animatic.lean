import Animatic.Main
import Animatic.Proofs.Geometry.Reconcile
import Animatic.Proofs.Playback.Ownership
import Animatic.Proofs.Script.Lexing
import Animatic.Proofs.Script.RoundTrip
import Animatic.Proofs.Script.Words
import Animatic.Proofs.Session.Runs
import Animatic.Proofs.Playback.Failures
import Animatic.Proofs.Session.Rules
import Animatic.Proofs.Number.Sums
import Animatic.Proofs.Playback.Clock
import Animatic.Proofs.Playback.Accounts
import Animatic.Proofs.Playback.Evaluation
import Animatic.Proofs.Playback.Order
import Animatic.Proofs.Script.Joining
import Animatic.Proofs.Session.Termination
import Animatic.Proofs.Playback.Objects
import Animatic.Proofs.Playback.Checks
import Animatic.Proofs.Session.Binding
import Animatic.Proofs.Construct.Arguments
import Animatic.Proofs.Session.Construction
import Animatic.Proofs.Script.Stopping
import Animatic.Proofs.Script.Nesting
import Animatic.Proofs.Script.Names
import Animatic.Proofs.Script.Placement
import Animatic.Proofs.Script.Keywords
import Animatic.Proofs.Script.Spans
import Animatic.Proofs.Session.Templates
import Animatic.Proofs.Session.Lookups
import Animatic.Proofs.Motion.Overlaps
import Animatic.Proofs.Motion.ShapeTweens
import Animatic.Proofs.Script.Displacement
import Animatic.Proofs.Playback.Replacements
import Animatic.Proofs.Playback.Drawing
import Animatic.Proofs.Motion.Bounces
import Animatic.Proofs.CommandLine.Frames
import Animatic.Proofs.Geometry.Closing
import Animatic.Proofs.Geometry.Resampling
import Animatic.Proofs.Script.Pieces
import Animatic.Proofs.Command.Registrations
import Animatic.Proofs.Session.Filling
import Animatic.Proofs.Script.Termination
