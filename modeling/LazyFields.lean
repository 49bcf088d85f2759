import LazyFields.Main
import LazyFields.Script.Evaluate
import LazyFields.Threads.Machine
import LazyFields.Proofs.SingleAssignment
import LazyFields.Proofs.Verification
import LazyFields.Proofs.OneProducer
import LazyFields.Proofs.Linearization
import LazyFields.Proofs.Brackets
import LazyFields.Proofs.StableEquality
import LazyFields.Proofs.Filling
import LazyFields.Proofs.Laziness
import LazyFields.Proofs.Unwinding
import LazyFields.Proofs.Poisoning
import LazyFields.Proofs.Flavours
import LazyFields.Proofs.Mirroring
import LazyFields.Proofs.Agreement
import LazyFields.Proofs.LockOrder
import LazyFields.Proofs.Updates
import LazyFields.Proofs.Retrying
import LazyFields.Proofs.Repetition
import LazyFields.Proofs.FailedAccess
import LazyFields.Proofs.Comparison
import LazyFields.Proofs.EventLog
import LazyFields.Proofs.RunLog
import LazyFields.Proofs.Announcements
import LazyFields.Proofs.ErrorTexts
import LazyFields.Proofs.SharedTexts
import LazyFields.Proofs.Blocks
import LazyFields.Proofs.Counting
import LazyFields.Proofs.ExactDivision
