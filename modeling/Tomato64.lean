import Tomato64.Httpd.Api
import Tomato64.Httpd.AspArguments
import Tomato64.Httpd.Auth
import Tomato64.Httpd.Cgi
import Tomato64.Httpd.JsString
import Tomato64.Httpd.QuotaUsage
import Tomato64.Httpd.RequestPath
import Tomato64.Httpd.SettingsTable
import Tomato64.Httpd.UploadRelay
import Tomato64.Httpd.UrlMatch
import Tomato64.Nvram.ProfileRoundTrip
import Tomato64.Quota.Backups
import Tomato64.Quota.Release
import Tomato64.Quota.Semantics
import Tomato64.Quota.Teardown
import Tomato64.Rc.BwlimitIds
import Tomato64.Rc.Ddns
import Tomato64.Rc.DhcpLease
import Tomato64.Rc.FirewallLock
import Tomato64.Rc.MwanMonitor
import Tomato64.Rc.Pbr
import Tomato64.Rc.QosClasses
import Tomato64.Rc.QosMarks
import Tomato64.Rc.QosScripts
import Tomato64.Rc.RcheckRadio
import Tomato64.Rc.RestrictBlock
import Tomato64.Rc.RestrictHooks
import Tomato64.Rc.RoutingMarks
import Tomato64.Rc.ServiceRequests
import Tomato64.Rc.UsbMount
import Tomato64.Rc.WgHooks
import Tomato64.Rc.WgInjection
import Tomato64.Shared.NdpiMigrate
import Tomato64.Stats.CstatsHosts
import Tomato64.Stats.Indices
import Tomato64.Stats.RstatsBytes
import Tomato64.Stats.RstatsFiles
import Tomato64.Www.LanHosts
import Tomato64.Www.QuotaIds
import Tomato64.Www.QuotaRanges
import Tomato64.Www.VlanRoundTrip
