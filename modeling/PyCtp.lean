import PyCtp.TextScanning
import PyCtp.InputStreams
import PyCtp.Config
import PyCtp.ConfigRoundTrip
import PyCtp.ConfigLastLine
import PyCtp.SymbolFile
import PyCtp.Accounts
import PyCtp.CloseSafety
import PyCtp.LoginDiscipline
import PyCtp.Binding
import PyCtp.BindingRuns
import PyCtp.ConcurrentQueue
import PyCtp.ContractHandover
import PyCtp.FrontEndAgreement
import PyCtp.TickRowLoss
import PyCtp.TickHeaders
import PyCtp.FailedResponses
import PyCtp.BindingRequests
import PyCtp.InterpreterLock
import PyCtp.LoadLoops
import PyCtp.ConfigReadFile
import PyCtp.TickDirectories
import PyCtp.RecorderProgress
import PyCtp.BindingProgress
import PyCtp.PooledQueue
