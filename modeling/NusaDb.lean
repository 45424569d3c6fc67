import NusaDb.Btree.Program
import NusaDb.Btree.FreshReads
import NusaDb.Wal.GroupCommit
import NusaDb.Stream.Frozen
import NusaDb.Rollback.Exact
import NusaDb.Pager.FlatMap
import NusaDb.Sequence.Consecutive
import NusaDb.Sequence.Values
import NusaDb.Rbac.Escalation
import NusaDb.Seal.Reading
import NusaDb.Ivm.Maintain
import NusaDb.Rls.Hidden
import NusaDb.Partition.Placed
import NusaDb.Agg.Totals
import NusaDb.Sql.NumericText
import NusaDb.Sql.Quotient
import NusaDb.Sql.Probe
import NusaDb.Sql.Like
import NusaDb.Sql.Calendar
import NusaDb.SetOps.Semantics
import NusaDb.Spill.Merged
import NusaDb.Json.Keys
