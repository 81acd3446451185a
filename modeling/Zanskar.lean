import Zanskar.Guac.Guacd
import Zanskar.Recording.Asciicast
import Zanskar.Policy.ConvertCorrect
import Zanskar.Access.OneOpen
import Zanskar.Access.Sweep
import Zanskar.Access.Eligible
import Zanskar.Lifecycle.Watchers
import Zanskar.Bootedit.Layout
import Zanskar.Auth.Totp
import Zanskar.Auth.Codes
import Zanskar.Gateway.Keys
import Zanskar.Gateway.MysqlRelay
import Zanskar.Gateway.Socks
import Zanskar.Gateway.Dbgw
import Zanskar.Asg.Departures
import Zanskar.Target.Trust
import Zanskar.Connect.Withdrawn
import Zanskar.Connect.Redeem
import Zanskar.Connect.Start
import Zanskar.Policy.Review
import Zanskar.Policy.Windows
import Zanskar.Idp.Sync
import Zanskar.User.LastAdmin
import Zanskar.Idp.Keycloak
import Zanskar.Idp.SafeNext
import Zanskar.Keyring.Processes
import Zanskar.Keyring.Reloads
import Zanskar.Credential.Rotation
import Zanskar.Session.Move
import Zanskar.Session.MoveOne
import Zanskar.Session.CommandIndex
import Zanskar.Notify.Notifier
import Zanskar.Audit.Verify
import Zanskar.Audit.Rotation
import Zanskar.Settings
import Zanskar.Tlscert
import Zanskar.Session.Listing
import Zanskar.Session.Retention
