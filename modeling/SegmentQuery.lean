import SegmentQuery.Main
import SegmentQuery.Proofs.Token.Display
import SegmentQuery.Proofs.Statement.Refusal
import SegmentQuery.Proofs.Query.LetterCase
import SegmentQuery.Proofs.Query.RowLimit
import SegmentQuery.Proofs.Query.ShownColumns
import SegmentQuery.Proofs.Query.ShownTimes
import SegmentQuery.Proofs.Session.Discipline
import SegmentQuery.Proofs.Session.Import
import SegmentQuery.Proofs.Command.Pipeline
