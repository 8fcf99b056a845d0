import ExperienceCurves.Bezier
import ExperienceCurves.Binary64
import ExperienceCurves.Conversion
import ExperienceCurves.Curve
import ExperienceCurves.Datum
import ExperienceCurves.Datum.Arithmetic
import ExperienceCurves.Decimal
import ExperienceCurves.Dictionary
import ExperienceCurves.Editing
import ExperienceCurves.Enclosure
import ExperienceCurves.Estimate
import ExperienceCurves.Failure
import ExperienceCurves.Fault
import ExperienceCurves.Formula.Error
import ExperienceCurves.Formula.Evaluation
import ExperienceCurves.Formula.Expr
import ExperienceCurves.Formula.Grammar
import ExperienceCurves.Formula.Token
import ExperienceCurves.Json
import ExperienceCurves.Ledger
import ExperienceCurves.Number
import ExperienceCurves.Numeral
import ExperienceCurves.Power
import ExperienceCurves.Preset
import ExperienceCurves.Profile
import ExperienceCurves.Progression
import ExperienceCurves.Registry
import ExperienceCurves.Requirement
import ExperienceCurves.Rounding
import ExperienceCurves.Segment
import ExperienceCurves.Service.Checked
import ExperienceCurves.Service.Command
import ExperienceCurves.Service.Form
import ExperienceCurves.Service.Problem
import ExperienceCurves.Service.Request
import ExperienceCurves.Service.State
import ExperienceCurves.Service.View
import ExperienceCurves.Settings
import ExperienceCurves.Stats
import ExperienceCurves.Table
import ExperienceCurves.Text.Blank
import ExperienceCurves.Text.Capital
import ExperienceCurves.Text.Digit
import ExperienceCurves.Text.Letter
import ExperienceCurves.Text.Printable
import ExperienceCurves.Text.Quoted
import ExperienceCurves.Text.Ranges
import ExperienceCurves.Yaml
import ExperienceCurves.Proofs.Climb
import ExperienceCurves.Proofs.Grants
import ExperienceCurves.Proofs.Runs
import ExperienceCurves.Proofs.Derivation
import ExperienceCurves.Proofs.Reading
import ExperienceCurves.Proofs.Names
import ExperienceCurves.Proofs.Ranges
import ExperienceCurves.Proofs.Dragging
import ExperienceCurves.Proofs.Redistribution
import ExperienceCurves.Proofs.ActiveSteps
import ExperienceCurves.Proofs.EditRuns
import ExperienceCurves.Proofs.Literals
import ExperienceCurves.Proofs.Values
import ExperienceCurves.Proofs.RealNumbers
import ExperienceCurves.Proofs.Requirements
import ExperienceCurves.Proofs.TableGrants
import ExperienceCurves.Proofs.Coverage
import ExperienceCurves.Proofs.CheckedForms
import ExperienceCurves.Proofs.SentCurves
import ExperienceCurves.Proofs.SentEdits
import ExperienceCurves.Proofs.RequirementBounds
import ExperienceCurves.Proofs.ShownCharacters
import ExperienceCurves.Proofs.ShownProfiles
import ExperienceCurves.Proofs.Refusals
import ExperienceCurves.Proofs.SentCommands
import ExperienceCurves.Proofs.AtomicRequests
import ExperienceCurves.Proofs.NumberOrder
import ExperienceCurves.Proofs.PublicationRuns
import ExperienceCurves.Proofs.ConcurrentGrants
import ExperienceCurves.Proofs.CharacterRuns
import ExperienceCurves.Proofs.LedgerRuns
import ExperienceCurves.Proofs.Addresses
import ExperienceCurves.Proofs.ShownCurves
import ExperienceCurves.Proofs.RoundingOrder
import ExperienceCurves.Proofs.UnitPowers
import ExperienceCurves.Proofs.BezierValues
import ExperienceCurves.Proofs.BezierProgress
import ExperienceCurves.Proofs.EvenDivision
import ExperienceCurves.Proofs.DisplayData
import ExperienceCurves.Proofs.NumericNames
import ExperienceCurves.Proofs.DragFailures
import ExperienceCurves.Proofs.DragEnds
import ExperienceCurves.Proofs.EditFailures
import ExperienceCurves.Proofs.CreatedNames
import ExperienceCurves.Proofs.NamedSegments
import ExperienceCurves.Proofs.LocalEdits
import ExperienceCurves.Proofs.Joins
import ExperienceCurves.Proofs.NumberedNames
import ExperienceCurves.Proofs.DefaultAppends
import ExperienceCurves.Proofs.NearestLevels
import ExperienceCurves.Proofs.BoundaryDrags
import ExperienceCurves.Proofs.Chains
import ExperienceCurves.Proofs.CharacterClasses
import ExperienceCurves.Proofs.Lexemes
import ExperienceCurves.Proofs.Scanning
import ExperienceCurves.Proofs.LetterCase
import ExperienceCurves.Proofs.Vocabulary
import ExperienceCurves.Proofs.Alignment
import ExperienceCurves.Proofs.Spacing
import ExperienceCurves.Proofs.Validation
import ExperienceCurves.Proofs.NumberGrants
import ExperienceCurves.Proofs.RisingBeziers
import ExperienceCurves.Proofs.TableColumns
import ExperienceCurves.Proofs.PlainData
import ExperienceCurves.Proofs.FirstMistake
import ExperienceCurves.Proofs.Saturation
import ExperienceCurves.Proofs.Activations
import ExperienceCurves.Proofs.SegmentShapes
import ExperienceCurves.Proofs.StatColumns
import ExperienceCurves.Proofs.RoundedValues
