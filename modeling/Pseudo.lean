import Pseudo.Library.Table
import Pseudo.Library.Text
import Pseudo.Library.Run
import Pseudo.Library.Resolve
import Pseudo.Message
import Pseudo.Database
import Pseudo.Server
import Pseudo.Rename
import Pseudo.Lookup
import Pseudo.Record
import Pseudo.Names
import Pseudo.Links
import Pseudo.Unlink
import Pseudo.FixPath
import Pseudo.Chroot
import Pseudo.PathText
import Pseudo.Canonical
import Pseudo.Symlink
import Pseudo.Refused
import Pseudo.Library.Decimal
import Pseudo.Credentials
import Pseudo.Client
import Pseudo.OpenFiles
import Pseudo.Library.Keyed
import Pseudo.Attributes
import Pseudo.Numbers
import Pseudo.SetXattr
import Pseudo.Renumber
import Pseudo.Check
import Pseudo.OneFile
import Pseudo.Xattrdb
import Pseudo.TwoStores
import Pseudo.Calm
import Pseudo.ClientTable
import Pseudo.Framing
import Pseudo.Bystanders
import Pseudo.Compound
import Pseudo.FailedRename
import Pseudo.HighestClient
import Pseudo.Library.Lockstep
import Pseudo.Lifetime
import Pseudo.Nameless
import Pseudo.NewFile
import Pseudo.ServeClient
import Pseudo.ServerLoop
import Pseudo.Traffic
import Pseudo.CarriedRename
import Pseudo.Changes
import Pseudo.Library.Cut
import Pseudo.Library.Memory
import Pseudo.PasswdPaths
import Pseudo.PathBuffer
import Pseudo.Privileges
import Pseudo.Receive
import Pseudo.TrailingSlash
import Pseudo.Closefrom
import Pseudo.FdTables
import Pseudo.Dechroot
import Pseudo.Getcwd
import Pseudo.Library.Printed
import Pseudo.Remaining
import Pseudo.Descriptors
import Pseudo.LinkedNames
import Pseudo.FixPathBuffer
import Pseudo.FixedPoint
import Pseudo.FixPathRefines
import Pseudo.ExecPath
import Pseudo.Library.Joined
import Pseudo.Library.Regex
import Pseudo.Libpseudo
import Pseudo.SetupEnv
import Pseudo.Library.Stacks
import Pseudo.Nftw
import Pseudo.AclMode
import Pseudo.Library.Fill
import Pseudo.GroupList
import Pseudo.Library.Window
import Pseudo.TempNames
import Pseudo.ReadBack
import Pseudo.Library.Sql
import Pseudo.LogQuery
import Pseudo.ExecArgs
import Pseudo.NameBuffer
import Pseudo.SqlBuffer
import Pseudo.Ping
import Pseudo.LogHistory
import Pseudo.LogDisplay
import Pseudo.Library.Rows
import Pseudo.LogTraits
import Pseudo.Library.Refine
import Pseudo.FileCalls
import Pseudo.FileNotices
import Pseudo.EmulatedFiles
import Pseudo.Emulation
import Pseudo.Library.Interleave
import Pseudo.WrapperLock
import Pseudo.LockProtocol
import Pseudo.LockSignals
import Pseudo.LockRuns
import Pseudo.DirtyFlag
import Pseudo.ServerStart
import Pseudo.OneServer
import Pseudo.ServerReached
import Pseudo.Durable
import Pseudo.Inherited
import Pseudo.Preloaded
import Pseudo.Migrations
import Pseudo.KilledSetUp
