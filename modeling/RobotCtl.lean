import RobotCtl.Library.FileSystem
import RobotCtl.Config.Baking
import RobotCtl.Conf.Text
import RobotCtl.Conf.Update
import RobotCtl.Conf.File
import RobotCtl.Conf.Store
import RobotCtl.Conf.Atomic
import RobotCtl.Conf.Failure
import RobotCtl.Experiments.Grammar
import RobotCtl.Experiments.Containers
import RobotCtl.Experiments.Table
import RobotCtl.Identity.Concurrent
import RobotCtl.Identity.Hosts
import RobotCtl.Identity.Nudge
import RobotCtl.Identity.Race
import RobotCtl.Identity.Record
import RobotCtl.Identity.Rename
import RobotCtl.Status.Filesystem
import RobotCtl.Status.Network
import RobotCtl.Wifi.ApSettings
import RobotCtl.Wifi.Directives
import RobotCtl.Wifi.Announce
import RobotCtl.Wifi.Broadcast
import RobotCtl.Wifi.Calm
import RobotCtl.Wifi.Lease
import RobotCtl.Wifi.Restart
import RobotCtl.Wifi.Settling
import RobotCtl.Wifi.Signals
