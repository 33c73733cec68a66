import Felspar.PollLifetime
import Felspar.PollResumption
import Felspar.UringPairs
import Felspar.AsyncResumptions
import Felspar.PollConnect
import Felspar.PollDeadlines
import Felspar.PollClose
import Felspar.TlsProgress
import Felspar.EndOfStream
import Felspar.ReadQueue
import Felspar.UringOutstanding
import Felspar.UringCancellation
import Felspar.Transmission
import Felspar.SeekableFiles
import Felspar.UringSubmission
import Felspar.TransferLengths
import Felspar.PollTimers
import Felspar.PollConnectTimers
import Felspar.PollPasses
import Felspar.PollIdle
import Felspar.PollTimerPass
import Felspar.Reentry
import Felspar.MemoryResources
import Felspar.Descriptors
import Felspar.HostConnect
import Felspar.AcceptStream
