import BossranMenu.Scan.Restore
import BossranMenu.Scan.Order
import BossranMenu.Scan.Missing
import BossranMenu.Scan.History
import BossranMenu.Authenticator
import BossranMenu.Lib.Machine
import BossranMenu.Contact
import BossranMenu.Lib.Regex
import BossranMenu.Form3
import BossranMenu.Menu
import BossranMenu.Licence
import BossranMenu.Lib.Json
import BossranMenu.Request
import BossranMenu.Scan.Caves
import BossranMenu.SigScan
import BossranMenu.Scan.Patches
import BossranMenu.AntiCheat
import BossranMenu.HwidList
import BossranMenu.AutoSkill
import BossranMenu.Attempts
import BossranMenu.Scan.Worker
import BossranMenu.Retries
import BossranMenu.Scan.Sweep
import BossranMenu.Download
import BossranMenu.Credentials
import BossranMenu.NotificationQueue
import BossranMenu.Hotkeys
import BossranMenu.Lib.Atof
import BossranMenu.NumberBoxes
import BossranMenu.Throttle
import BossranMenu.Tabs
import BossranMenu.Lib.Ring
import BossranMenu.Loader
import BossranMenu.Lib.Bounce
import BossranMenu.Particles
import BossranMenu.MinHook.Hooked
import BossranMenu.MinHook.Threads
import BossranMenu.MinHook.Concurrent
