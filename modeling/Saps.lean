import Saps.Auth.Client.Theorems
import Saps.Auth.Requests.Theorems
import Saps.Auth.Statements.Theorems
import Saps.Auth.Visitor.Theorems
import Saps.Files.Guard.Transactions
import Saps.Files.Session.Theorems
import Saps.Files.FlatEngines.Theorems
import Saps.Files.KvSession.Theorems
import Saps.Files.Twins.Theorems
import Saps.Files.IndexedDb.Theorems
import Saps.Files.IndexedDb.Users.Theorems
import Saps.Files.Interchange.Theorems
import Saps.Files.DiskSession.Theorems
import Saps.Files.DiffStream.Theorems
import Saps.Files.Navigation.Theorems
import Saps.Files.Parties.Theorems
import Saps.Scheduled.Scheduler.Restarts
import Saps.Tasks.Pool.Exclusion
import Saps.Tasks.Pool.Order
import Saps.Tasks.Pool.Lifecycle
import Saps.Files.Durability.Theorems
import Saps.Files.Relocation.Theorems
import Saps.Files.Beneath.Theorems
import Saps.Files.Session.Loading
import Saps.Files.Carrying.Theorems
import Saps.Files.DiskFolders.Theorems
import Saps.Files.JoinStream.Theorems
import Saps.Files.Navigation.Lexical
import Saps.Files.Representation.Theorems
import Saps.Frontend.Fallback
import Saps.Auth.Cookies.Theorems
import Saps.Auth.MetaIndex
import Saps.Auth.ConstructChecks
import Saps.Auth.MetaSelection.Theorems
import Saps.Auth.Login.Theorems
import Saps.Auth.MetaCache.Theorems
import Saps.Files.BrowserState.Theorems
import Saps.Files.Backends.Theorems
import Saps.Auth.Headers.Theorems
import Saps.Auth.Credentials
import Saps.Auth.MetaRegister.Theorems
import Saps.Auth.Revocation
import Saps.Tasks.BackgroundTask.Theorems
import Saps.Scheduled.Pipeline.Theorems
