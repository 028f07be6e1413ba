import Almanac.Date.Lemmas
import Almanac.Main
import Almanac.Proofs.DateField
import Almanac.Proofs.Format.Compile
import Almanac.Proofs.Decimal
import Almanac.Proofs.Format.Unambiguous
import Almanac.Proofs.Format.Spelling
import Almanac.Proofs.Format.Acceptance
import Almanac.Proofs.Format.RoundTrip
import Almanac.Proofs.Date.YearEnd
import Almanac.Proofs.FieldValues.Shows
import Almanac.Proofs.Resolver.DefaultPattern
import Almanac.Proofs.FieldValues.Date
import Almanac.Proofs.FieldValues.TimeOfDay
import Almanac.Proofs.Format.PeriodName
import Almanac.Proofs.Date.Months
import Almanac.Proofs.ZonedTime.Period
import Almanac.Proofs.Listing
import Almanac.Proofs.Date.Distance
import Almanac.Proofs.Date.WeekYear
import Almanac.Proofs.Zone.Gap
import Almanac.Proofs.ZonedTime.Distance
import Almanac.Proofs.ZonedTime.Attach
import Almanac.Proofs.ZonedTime.Rounding
import Almanac.Proofs.NamePattern
import Almanac.Proofs.Format.SingleField
import Almanac.Proofs.Listing.WeekYears
import Almanac.Proofs.Listing.Days
import Almanac.Proofs.MathStep.Evaluation
import Almanac.Proofs.NamePattern.Quotes
import Almanac.Proofs.MathStep.Grammar
import Almanac.Proofs.Resolver.Splitting
import Almanac.Proofs.ZonedTime.WholeHours
import Almanac.Proofs.Listing.Hours
import Almanac.Proofs.Listing.StopZone
import Almanac.Proofs.Checked
import Almanac.Proofs.Text.Positions
import Almanac.Proofs.Format.Owed
import Almanac.Proofs.Format.Positions
import Almanac.Proofs.FieldValues.Widths
import Almanac.Proofs.ZonedTime.Localize
import Almanac.Proofs.ZonedTime.DateStep
import Almanac.Proofs.Rfc3339
import Almanac.Proofs.CommandLine.Instant
import Almanac.Proofs.Format.Separated
import Almanac.Proofs.Format.Timestamp
import Almanac.Proofs.Listing.Distinct
import Almanac.Proofs.ZonedTime.PeriodStart
import Almanac.Proofs.ZonedTime.Limits
import Almanac.Proofs.Format.NearbyDays
import Almanac.Proofs.Listing.HalfDays
import Almanac.Proofs.Listing.AlignedWeeks
import Almanac.Proofs.Format.SeparatedReading
import Almanac.Proofs.Format.IdleFields
import Almanac.Proofs.Listing.Reversed
import Almanac.Proofs.Listing.Remaining
import Almanac.Proofs.FieldValues.WeekYear
import Almanac.Proofs.FieldValues.Kept
import Almanac.Proofs.MathStep.Displacement
import Almanac.Proofs.Format.Dated
import Almanac.Proofs.Listing.Dated
import Almanac.Proofs.ZonedTime.UnevenStep
import Almanac.Proofs.ZonedTime.EraStep
import Almanac.Proofs.Format.Faults
import Almanac.Proofs.Format.Quoting
import Almanac.Proofs.NamePattern.Anchored
import Almanac.Proofs.LocalTime
