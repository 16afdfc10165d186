import DescribedEffects.Decimal.Reading
import DescribedEffects.Harness.Seen
import DescribedEffects.Script.HeldLog
import DescribedEffects.Settings
import DescribedEffects.Proofs.Harness.Runs
import DescribedEffects.Proofs.Computation.Behaviour
import DescribedEffects.Proofs.Harness.Mismatch
import DescribedEffects.Proofs.EventLoop.Changes
import DescribedEffects.Proofs.EventLoop.Ownership
import DescribedEffects.Proofs.EventLoop.Queue
import DescribedEffects.Proofs.EventLoop.FirstCompletion
import DescribedEffects.Proofs.EventLoop.Amid
import DescribedEffects.Proofs.Driving.Solo
import DescribedEffects.Proofs.EventLoop.Delivery
import DescribedEffects.Proofs.Driving.Dialogue
import DescribedEffects.Proofs.EventLoop.Stages
import DescribedEffects.Proofs.EventLoop.Closing
import DescribedEffects.Proofs.EventLoop.Dialogues
import DescribedEffects.Proofs.Harness.Dialogues
import DescribedEffects.Proofs.Harness.Scripted
import DescribedEffects.Proofs.Agreement
import DescribedEffects.Proofs.Harness.Consumption
import DescribedEffects.Proofs.Harness.Failures
import DescribedEffects.Proofs.Computation.Keeping
import DescribedEffects.Proofs.Computation.Yields
import DescribedEffects.Proofs.EventLoop.Recording
import DescribedEffects.Proofs.Driving.Tandem
import DescribedEffects.Proofs.Driving.InPlace
import DescribedEffects.Proofs.EventLoop.Tandem
import DescribedEffects.Proofs.Harness.Tandem
import DescribedEffects.Proofs.Nesting
import DescribedEffects.Proofs.EventLoop.Owners
import DescribedEffects.Proofs.EventLoop.Groups
import DescribedEffects.Proofs.EventLoop.Members
import DescribedEffects.Proofs.EventLoop.Gathering
import DescribedEffects.Proofs.EventLoop.GroupOutcome
import DescribedEffects.Proofs.EventLoop.Settling
import DescribedEffects.Proofs.EventLoop.Completions
import DescribedEffects.Proofs.Descriptor.Grammar
import DescribedEffects.Proofs.Descriptor.Spelling
import DescribedEffects.Proofs.Descriptor.Flaws
import DescribedEffects.Proofs.Descriptor.Blame
import DescribedEffects.Proofs.Refusals
import DescribedEffects.Proofs.EventLoop.Unread
import DescribedEffects.Proofs.Tracing
import DescribedEffects.Proofs.Manners.Plan
import DescribedEffects.Proofs.Manners.World
import DescribedEffects.Proofs.Manners.Outlook
import DescribedEffects.Proofs.Manners.Keeping
import DescribedEffects.Proofs.Manners.Hearing
import DescribedEffects.Proofs.Manners.Serving
import DescribedEffects.Proofs.Manners.Performing
import DescribedEffects.Proofs.Manners.Dispatch
import DescribedEffects.Proofs.Manners.Assembly
import DescribedEffects.Proofs.Manners.Jobs
import DescribedEffects.Proofs.Manners.Steps
import DescribedEffects.Proofs.Manners.Effort
import DescribedEffects.Proofs.Manners.Arrival
import DescribedEffects.Proofs.Harness.Closing
import DescribedEffects.Proofs.EventLoop.Calls
import DescribedEffects.Proofs.EventLoop.Enrolment
import DescribedEffects.Proofs.EventLoop.Launching
import DescribedEffects.Proofs.EventLoop.Dispatching
import DescribedEffects.Proofs.EventLoop.Leftmost
import DescribedEffects.Proofs.Manners.Between
import DescribedEffects.Proofs.Manners.Course
import DescribedEffects.Proofs.Manners.Indifference
import DescribedEffects.Proofs.Harness.Matching
import DescribedEffects.Proofs.Sorting
import DescribedEffects.Proofs.Harness.Entries
import DescribedEffects.Proofs.Validity
import DescribedEffects.Proofs.Returns
import DescribedEffects.Proofs.Walk
import DescribedEffects.Proofs.Harness.Skeletons
import DescribedEffects.Proofs.EventLoop.Log
import DescribedEffects.Proofs.EventLoop.Seen
import DescribedEffects.Proofs.Logging
import DescribedEffects.Proofs.Value.Unsited
import DescribedEffects.Proofs.Descriptor.Gist
import DescribedEffects.Proofs.Computation.Blur
import DescribedEffects.Proofs.EventLoop.Blurred
import DescribedEffects.Proofs.EventLoop.Respelled
import DescribedEffects.Proofs.Harness.Respelled
import DescribedEffects.Proofs.Respelling
import DescribedEffects.Proofs.Descriptor.Building
import DescribedEffects.Proofs.BoundedLog.Calls
