import Tomato64.Core.Fingerprint
import Tomato64.Httpd.SettingsSave

/-!
# The table of saved variables

`nvset_list` for a TOMATO64 build with the packages of the default
configuration: four wide area networks, eight bridges, three radios with
sixteen interfaces each, three clients and four servers of OpenVPN, and three
interfaces of WireGuard.  The names of the numbered entries are joined from the
same pieces as in the macros of the source.
-/

namespace Tomato64.SettingsTable

open Fingerprint Scan SettingsCheck
open SettingsSave

/-- Every bound of the table is an `int`, so it lies inside `long`. -/
def vRange (min max : Int32) : VType :=
  .range ⟨min.toInt, max.toInt, by
    have hmin := Int32.le_toInt min
    have hmax := Int32.toInt_lt max
    simp only [longMin, longMax]
    omega⟩

def v01 : VType := vRange 0 1
def vPort : VType := vRange 2 65535
def vNum : VType := vRange 0 0x7FFFFFFF
def vLength (min max : ℤ) : VType := .length min max
def vText (min max : ℤ) : VType := .text min max
def vOnOff : VType := vLength 2 3
def vWord : VType := vLength 1 16
def vIp : VType := .ip true
def vIpOpt : VType := .ip false
def vIpv6 (required : Bool) : VType := .ipv6 required

/-! ## The macros for numbered entries -/

/-- Entries whose names start with the same pieces. -/
def block (pieces : List String) (rows : List (String × VType)) :
    List Nvset :=
  rows.map fun row => ⟨pieces ++ [row.1], row.2⟩

/-- Entries whose names differ in a number only. -/
def numbered (numbers : List String) (front back : String) (vtype : VType) :
    List Nvset :=
  numbers.map fun i => ⟨[front, i, back], vtype⟩

def upTo3 : List String := ["0", "1", "2", "3"]

def upTo9 : List String := upTo3 ++ ["4", "5", "6", "7", "8", "9"]

def upTo15 : List String := upTo9 ++ ["10", "11", "12", "13", "14", "15"]

def wanBlockCore (i : String) : List Nvset := block ["wan", i] [
  ("_proto", vLength 1 16),
  ("_weight", vRange 0 256),
  ("_ipaddr", vIp),
  ("_netmask", vIp),
  ("_gateway", vIp),
  ("_hwaddr", vText 0 17),
  ("_iface", vText 0 8),
  ("_ifname", vText 0 8),
  ("_l2tp_server_ip", vLength 0 128),
  ("_pptp_server_ip", vLength 0 128),
  ("_pptp_dhcp", v01),
  ("_ppp_username", vLength 0 60),
  ("_ppp_passwd", vLength 0 60),
  ("_ppp_service", vLength 0 50),
  ("_ppp_demand", v01),
  ("_ppp_demand_dnsip", vIp),
  ("_ppp_custom", vLength 0 256),
  ("_ppp_idletime", vRange 0 1440),
  ("_ppp_redialperiod", vRange 1 86400),
  ("_mtu_enable", v01),
  ("_mtu", vRange 576 1500),
  ("_modem_ipaddr", vIp),
  ("_pppoe_lei", vRange 1 60),
  ("_pppoe_lef", vRange 1 10),
  ("_sta", vLength 0 15),
  ("_dns", vLength 0 50),
  ("_dns_auto", v01),
  ("_addget", v01),
  ("_ckmtd", vLength 1 2),
  ("_ck_pause", v01),
  ("_mac", vLength 0 17),
  ("_qos_obw", vRange 10 99999999),
  ("_qos_ibw", vRange 10 99999999),
  ("_qos_overhead", vRange (-127) 128),
  ("_ifnameX", vText 0 9),
  ("_ifnameX_vlan", vText 0 8)]

def wanBlockBcmarm (i : String) : List Nvset := [
  ⟨["wan", i, "_qos_encap"], vNum⟩]

def wanBlockUsb (i : String) : List Nvset := block ["wan", i] [
  ("_modem_pin", vLength 0 6),
  ("_modem_dev", vLength 0 14),
  ("_modem_init", vLength 0 25),
  ("_modem_apn", vLength 0 25),
  ("_modem_speed", vLength 0 6),
  ("_modem_band", vLength 0 16),
  ("_modem_roam", vRange 0 3),
  ("_modem_if", vLength 0 4),
  ("_modem_type", vLength 0 15),
  ("_hilink_ip", vIp),
  ("_status_script", v01)]

def wanBlockExtra (i : String) : List Nvset := [
  ⟨["wan", i, "_ppp_mlppp"], v01⟩]

def wanBlock (i : String) : List Nvset :=
  wanBlockCore i ++ wanBlockBcmarm i ++ wanBlockUsb i ++ wanBlockExtra i

def bridgeBlockCore (i : String) : List Nvset := [
  ⟨["lan", i, "_ifname"], vLength 0 5⟩,
  ⟨["lan", i, "_ifnames"], vText 0 256⟩,
  ⟨["lan", i, "_ifnames_vlan"], vText 0 8⟩,
  ⟨["lan", i, "_ipaddr"], vLength 0 15⟩,
  ⟨["lan", i, "_netmask"], vLength 0 15⟩,
  ⟨["lan", i, "_proto"], vLength 0 6⟩,
  ⟨["lan", i, "_stp"], vLength 0 1⟩,
  ⟨["dhcpd", i, "_startip"], vLength 0 15⟩,
  ⟨["dhcpd", i, "_endip"], vLength 0 15⟩,
  ⟨["dhcpd", i, "_ostatic"], v01⟩,
  ⟨["dhcp", i, "_lease"], vLength 0 5⟩,
  ⟨["upnp_lan", i], v01⟩,
  ⟨["bwl_lan", i, "_enable"], v01⟩,
  ⟨["bwl_lan", i, "_dlc"], vRange 0 99999999⟩,
  ⟨["bwl_lan", i, "_ulc"], vRange 0 99999999⟩,
  ⟨["bwl_lan", i, "_dlr"], vRange 0 99999999⟩,
  ⟨["bwl_lan", i, "_ulr"], vRange 0 99999999⟩,
  ⟨["bwl_lan", i, "_prio"], vRange 0 5⟩]

def bridgeBlockProxy (i : String) : List Nvset := [
  ⟨["multicast_lan", i], v01⟩,
  ⟨["udpxy_lan", i], v01⟩]

def bridgeBlockUsbExtras (i : String) : List Nvset := [
  ⟨["dnsmasq_pxelan", i], v01⟩]

def bridgeBlock (i : String) : List Nvset :=
  bridgeBlockCore i ++ bridgeBlockProxy i ++ bridgeBlockUsbExtras i

def wifiPhyBlock (p : String) : List Nvset := block ["wifi_phy", p] [
  ("_band", vText 2 2),
  ("_mode", vText 1 6),
  ("_channel", vText 1 4),
  ("_width", vText 2 3),
  ("_brates", .none),
  ("_cell_density", vRange 0 3),
  ("_noscan", .none),
  ("_power", vText 0 2),
  ("_country", vText 0 2),
  ("_ifaces", vRange 0 16),
  ("_custom", .none)]

def wifiIfaceBlock (p i : String) : List Nvset :=
  block ["wifi_phy", p, "iface", i] [
  ("_enable", vRange 0 1),
  ("_mode", vText 2 7),
  ("_essid", vText 0 32),
  ("_bssid", vText 0 17),
  ("_network", vText 0 3),
  ("_hidden", .none),
  ("_wmm", vRange 0 1),
  ("_uapsd", vRange 0 1),
  ("_encryption", .none),
  ("_cipher", .none),
  ("_key", vLength 8 64),
  ("_isolate", .none),
  ("_br_isolate", .none),
  ("_ifname", vText 0 15),
  ("_macfilter", vText 0 5),
  ("_maclist", .none),
  ("_custom", .none),
  ("_mesh_fwding", vRange 0 1),
  ("_mesh_rssi_threshold", vRange (-255) 1),
  ("_ieee80211r", v01),
  ("_nasid", vText 0 48),
  ("_mobility_domain", vText 0 4),
  ("_reassociation_deadline", vText 0 5),
  ("_ft_over_ds", vRange 0 1),
  ("_ft_psk_generate_local", v01),
  ("_r0_key_lifetime", vText 0 10),
  ("_r1_key_holder", vText 0 12),
  ("_pmk_r1_push", v01),
  ("_r0kh", .none),
  ("_r1kh", .none),
  ("_ieee80211k", v01),
  ("_rrm_neighbor_report", v01),
  ("_rrm_beacon_report", v01),
  ("_time_advertisement", vRange 0 2),
  ("_time_zone", vText 0 64),
  ("_wnm_sleep_mode", v01),
  ("_wnm_sleep_mode_no_keys", v01),
  ("_bss_transition", v01),
  ("_proxy_arp", v01),
  ("_mlo", v01),
  ("_mlo_links", vText 0 16)]

def wifiPhyIfaces (p : String) : List Nvset :=
  upTo15.flatMap (wifiIfaceBlock p)

def wifiBlock (p : String) : List Nvset :=
  wifiPhyBlock p ++ wifiPhyIfaces p

def ovpnsBlock (i : String) : List Nvset := block ["vpns", i] [
  ("_poll", vRange 0 30),
  ("_if", vText 3 3),
  ("_proto", vText 3 11),
  ("_port", vPort),
  ("_firewall", vText 0 8),
  ("_crypt", vText 0 6),
  ("_cipher", vText 0 16),
  ("_ncp_ciphers", vText 0 128),
  ("_digest", vText 0 15),
  ("_dhcp", v01),
  ("_r1", vIp),
  ("_r2", vIp),
  ("_sn", vIp),
  ("_nm", vIp),
  ("_local", vIp),
  ("_remote", vIp),
  ("_reneg", vRange (-1) 2147483647),
  ("_hmac", vRange (-1) 4),
  ("_plan", .none),
  ("_pdns", v01),
  ("_rgw", v01),
  ("_userpass", v01),
  ("_nocert", v01),
  ("_users_val", .none),
  ("_custom", .none),
  ("_ccd", v01),
  ("_c2c", v01),
  ("_ccd_excl", v01),
  ("_ccd_val", .none),
  ("_static", .none),
  ("_ca", .none),
  ("_ca_key", .none),
  ("_crt", .none),
  ("_crl", .none),
  ("_key", .none),
  ("_dh", .none),
  ("_br", vLength 0 50),
  ("_dco", v01),
  ("_ecdh", v01)]

def ovpncBlock (i : String) : List Nvset := block ["vpnc", i] [
  ("_poll", vRange 0 30),
  ("_tchk", v01),
  ("_tunchk", vIpOpt),
  ("_if", vText 3 3),
  ("_bridge", v01),
  ("_nat", v01),
  ("_proto", vText 3 11),
  ("_addr", .none),
  ("_port", vPort),
  ("_retry", vRange (-1) 32767),
  ("_firewall", vText 0 6),
  ("_crypt", vText 0 6),
  ("_cipher", vText 0 16),
  ("_ncp_ciphers", vText 0 128),
  ("_digest", vText 0 15),
  ("_local", vIp),
  ("_remote", vIp),
  ("_nm", vIp),
  ("_reneg", vRange (-1) 2147483647),
  ("_hmac", vRange (-1) 4),
  ("_adns", vRange 0 3),
  ("_rgw", vRange 0 3),
  ("_gw", vText 0 15),
  ("_custom", .none),
  ("_static", .none),
  ("_ca", .none),
  ("_crt", .none),
  ("_key", .none),
  ("_userauth", v01),
  ("_username", vText 0 50),
  ("_password", vText 0 70),
  ("_useronly", v01),
  ("_tlsremote", v01),
  ("_tlsvername", vRange 0 3),
  ("_cn", .none),
  ("_br", vLength 0 50),
  ("_routing_val", .none),
  ("_fw", v01),
  ("_dco", v01),
  ("_prio", .none)]

def wgBlock (i : String) : List Nvset := block ["wg", i] [
  ("_enable", v01),
  ("_poll", vRange 0 30),
  ("_tchk", v01),
  ("_tunchk", vIpOpt),
  ("_sleep", vRange 1 99),
  ("_file", vText 0 64),
  ("_key", vText 0 44),
  ("_endpoint", .none),
  ("_port", .none),
  ("_ip", vText 0 32),
  ("_fwmark", vText 0 8),
  ("_mtu", vRange 0 1500),
  ("_preup", .none),
  ("_postup", .none),
  ("_predown", .none),
  ("_postdown", .none),
  ("_aip", vText 0 128),
  ("_dns", .none),
  ("_ka", vRange 0 99),
  ("_com", vRange 0 3),
  ("_lan", vRange 0 255),
  ("_rgw", v01),
  ("_route", .none),
  ("_peer_dns", vText 0 128),
  ("_peers", .none),
  ("_firewall", vText 0 6),
  ("_nat", v01),
  ("_fw", v01),
  ("_rgwr", vRange 1 3),
  ("_routing_val", .none),
  ("_prio", .none)]

/-! ## The pages -/

def basicPages : List Nvset := block [] [
  -- basic-ident
  ("router_name", vLength 0 32),
  ("wan_hostname", vLength 0 32),
  ("wan_domain", vLength 0 32),
  -- basic-time
  ("tm_tz", vLength 1 64),
  ("tm_sel", vLength 1 64),
  ("tm_dst", v01),
  ("ntp_updates", vRange (-1) 24),
  ("ntp_server", vLength 1 150),
  ("ntpd_ready", v01),
  ("ntpd_enable", vRange 0 2),
  ("ntpd_server_redir", v01),
  -- basic-static
  ("dhcpd_static", vLength 0 (108*251))]

def basicDdns : List Nvset :=
  numbered upTo3 "ddnsx" "" (vLength 0 2048) ++
    numbered upTo3 "ddnsx" "_cache" (vLength 0 1) ++
    numbered upTo3 "ddnsx" "_ip" (vLength 0 32) ++
    numbered upTo3 "ddnsx" "_save" v01 ++
    numbered upTo3 "ddnsx" "_refresh" (vRange 0 365) ++
    numbered upTo3 "ddnsx" "_cktime" (vRange 5 99999) ++
    numbered upTo3 "ddnsx" "_opendns" (vRange 0 15) ++
    [⟨["ddnsx_custom_if"], vLength 0 6⟩]

def basicNetworkWan : List Nvset := block [] [
  -- WAN
  ("mwan_num", vRange 1 4),
  ("mwan_init", v01),
  ("mwan_cktime", vRange 0 3600),
  ("mwan_ckdst", vLength 0 64),
  ("mwan_tune_gc", v01),
  ("mwan_state_init", v01),
  ("pbr_rules", vLength 0 2048),
  ("wan_proto", vLength 1 16),
  ("wan_weight", vRange 0 256),
  ("wan_ipaddr", vIp),
  ("wan_netmask", vIp),
  ("wan_gateway", vIp),
  ("wan_hwaddr", vText 0 17),
  ("wan_iface", vText 0 8),
  ("wan_ifname", vText 0 8),
  ("hb_server_ip", vLength 0 32),
  ("wan_l2tp_server_ip", vLength 0 128),
  ("wan_pptp_server_ip", vLength 0 128),
  ("wan_pptp_dhcp", v01),
  ("wan_ppp_username", vLength 0 60),
  ("wan_ppp_passwd", vLength 0 60),
  ("wan_ppp_service", vLength 0 50),
  ("wan_ppp_demand", v01),
  ("wan_ppp_demand_dnsip", vIp),
  ("wan_ppp_custom", vLength 0 256),
  ("wan_ppp_idletime", vRange 0 1440),
  ("wan_ppp_redialperiod", vRange 1 86400),
  ("wan_ppp_mlppp", v01),
  ("wan_mtu_enable", v01),
  ("wan_mtu", vRange 576 1500),
  ("wan_modem_ipaddr", vIp),
  ("wan_pppoe_lei", vRange 1 60),
  ("wan_pppoe_lef", vRange 1 10),
  ("wan_sta", vLength 0 15),
  ("wan_dns", vLength 0 50),
  ("wan_dns_auto", v01),
  ("wan_addget", v01),
  ("wan_hilink_ip", vIp),
  ("wan_status_script", v01),
  ("wan_ckmtd", vLength 1 2),
  ("wan_ck_pause", v01),
  ("dnscrypt_proxy", v01),
  ("dnscrypt_priority", vRange 0 2),
  ("dnscrypt_port", vPort),
  ("dnscrypt_resolver", vLength 0 40),
  ("dnscrypt_log", vRange 0 99),
  ("dnscrypt_manual", v01),
  ("dnscrypt_provider_name", vLength 0 60),
  ("dnscrypt_provider_key", vLength 0 80),
  ("dnscrypt_resolver_address", vLength 0 50),
  ("dnscrypt_ephemeral_keys", v01),
  ("stubby_proxy", v01),
  ("stubby_priority", vRange 0 2),
  ("stubby_port", vPort),
  ("stubby_resolvers", vLength 0 1024),
  ("stubby_force_tls13", v01),
  ("stubby_log", vRange 0 7),
  ("stubby_custom", vText 0 4096)]

def basicNetworkLan : List Nvset := block [] [
  -- LAN
  ("lan_ipaddr", vIp),
  ("lan_netmask", vIp),
  ("lan_gateway", vIp),
  ("lan_dns", vLength 0 50),
  ("dnssec_enable", v01),
  ("dnssec_method", vRange 0 2),
  ("lan_state", v01),
  ("lan_desc", v01),
  ("lan_invert", v01),
  ("lan_dhcp", v01),
  ("lan_proto", vWord),
  ("dhcpd_startip", vLength 0 15),
  ("dhcpd_endip", vLength 0 15),
  ("dhcpd_ostatic", v01),
  ("dhcp_lease", vLength 0 5),
  ("dhcp_moveip", vRange 0 2),
  ("wan_wins", vIp),
  -- 3G/4G MODEM
  ("wan_modem_pin", vLength 0 6),
  ("wan_modem_dev", vLength 0 14),
  ("wan_modem_init", vLength 0 25),
  ("wan_modem_apn", vLength 0 25),
  ("wan_modem_speed", vLength 0 6),
  ("wan_modem_band", vLength 0 16),
  ("wan_modem_roam", vRange 0 3),
  ("wan_modem_if", vLength 0 4),
  ("wan_modem_type", vLength 0 15),
  -- LAN networks
  ("lan_ifname", vLength 0 5)]

def basicNetworkWireless : List Nvset := block [] [
  ("wl_radio", v01),
  ("wl_mode", vLength 2 4),
  ("wl_net_mode", vLength 5 8),
  ("wl_ssid", vLength 1 32),
  ("wl_closed", v01),
  ("wl_channel", vRange 0 216),
  ("wl_vifs", vLength 0 64),
  ("wl_security_mode", vLength 1 32),
  ("wl_radius_ipaddr", vIp),
  ("wl_radius_port", vPort),
  ("wl_radius_key", vLength 1 64),
  ("wl_wep_bit", vRange 64 128),
  ("wl_passphrase", vLength 0 20),
  ("wl_key", vRange 1 4),
  ("wl_key1", vLength 0 26),
  ("wl_key2", vLength 0 26),
  ("wl_key3", vLength 0 26),
  ("wl_key4", vLength 0 26),
  ("wl_crypto", vLength 3 8),
  ("wl_wpa_psk", vLength 8 64),
  ("wl_wpa_gtk_rekey", vRange 0 2592000),
  ("wl_lazywds", v01),
  ("wl_wds", vLength 0 180),
  ("wl_wds_enable", v01),
  ("wl_gmode", vRange (-1) 6),
  ("wl_wep", vLength 1 32),
  ("wl_akm", vLength 0 32),
  ("wl_auth_mode", vLength 4 6),
  ("wl_mfp", vRange 0 2),
  ("wl_nmode", .none),
  ("wl_nband", vRange 0 2),
  ("wl_nreqd", .none),
  ("wl_nbw_cap", vRange 0 3),
  ("wl_user_rssi", vRange (-90) 0),
  ("wl_nbw", .none),
  ("wl_mimo_preamble", vWord),
  ("wl_nctrlsb", .none)]

def basicIpv6 : List Nvset := block [] [
  -- basic-ipv6
  ("ipv6_service", vLength 0 16),
  ("ipv6_debug", v01),
  ("ipv6_duid_type", vRange 1 4),
  ("ipv6_ia_na_id", vRange 0 255),
  ("ipv6_ia_pd_id", vRange 0 255),
  ("ipv6_prefix", vIpv6 false),
  ("ipv6_prefix_length", vRange 3 127),
  ("ipv6_rtr_addr", vIpv6 false),
  ("ipv6_radvd", v01),
  ("ipv6_dhcpd", v01),
  ("ipv6_lease_time", vRange 1 720),
  ("ipv6_accept_ra", vNum),
  ("ipv6_fast_ra", v01),
  ("ipv6_tun_addr", vIpv6 true),
  ("ipv6_tun_addrlen", vRange 3 127),
  ("ipv6_ifname", vLength 0 8),
  ("ipv6_tun_v4end", vIp),
  ("ipv6_relay", vRange 1 254),
  ("ipv6_tun_mtu", vNum),
  ("ipv6_tun_ttl", vNum),
  ("ipv6_dns", vLength 0 (40*3)),
  ("ipv6_dns_lan", vLength 0 (40*2)),
  ("ipv6_6rd_prefix", vIpv6 false),
  ("ipv6_6rd_prefix_length", vRange 3 127),
  ("ipv6_6rd_borderrelay", vIp),
  ("ipv6_6rd_ipv4masklen", vRange 0 32),
  ("ipv6_vlan", vRange 0 127),
  ("ipv6_isp_opt", v01),
  ("ipv6_pdonly", v01),
  ("ipv6_rapid_commit", v01),
  ("ipv6_pd_norelease", v01),
  ("ipv6_wan_addr", vIpv6 false),
  ("ipv6_prefix_len_wan", vRange 3 64),
  ("ipv6_isp_gw", vIpv6 false),
  ("ipv6_llremote_custom", vIpv6 false),
  -- basic-wfilter
  ("wl_macmode", .none),
  ("wl_maclist", vLength 0 (18*201)),
  ("macnames", vLength 0 (62*201))]

def advancedDhcpdns : List Nvset := block [] [
  -- advanced-ctnf
  ("ct_max", vNum),
  ("ct_tcp_timeout", vLength 20 70),
  ("ct_udp_timeout", vLength 5 15),
  ("ct_timeout", vLength 5 15),
  ("nf_ttl", vLength 1 6),
  ("nf_ndpi_in", v01),
  ("nf_sip", v01),
  ("ct_hashsize", vNum),
  ("nf_rtsp", v01),
  ("nf_pptp", v01),
  ("nf_h323", v01),
  ("nf_ftp", v01),
  ("fw_nat_tuning", vRange 0 2),
  -- advanced-dhcpdns
  ("dhcpd_slt", vRange (-1) 43200),
  ("dhcpd_dmdns", v01),
  ("dhcpd_lmax", vNum),
  ("dhcpd_gwmode", vNum),
  ("dns_intcpt", v01),
  ("dhcpc_minpkt", v01),
  ("dhcpc_custom", vLength 0 256),
  ("dns_norebind", v01),
  ("dns_fwd_local", v01),
  ("dns_priv_override", v01),
  ("dnsmasq_debug", v01),
  ("dnsmasq_custom", vText 0 4096),
  ("dnsmasq_q", vRange 0 7),
  ("dnsmasq_gen_names", v01),
  ("dnsmasq_edns_size", vRange 512 4096),
  ("dnsmasq_safe", v01),
  ("dnsmasq_norestart", v01),
  ("dnsmasq_onion_support", v01),
  ("dnsmasq_tftp", v01),
  ("dnsmasq_tftp_path", vText 0 128),
  ("dnsmasq_pxelan", v01),
  ("mdns_enable", v01),
  ("mdns_reflector", v01),
  ("mdns_debug", v01)]

def advancedFirewall : List Nvset := block [] [
  -- advanced-firewall
  ("block_wan", v01),
  ("block_wan_limit", v01),
  ("block_wan_limit_icmp", vRange 1 300),
  ("multicast_pass", v01),
  ("multicast_lan", v01),
  ("multicast_quickleave", v01),
  ("multicast_custom", vText 0 2048),
  ("udpxy_enable", v01),
  ("udpxy_lan", v01),
  ("udpxy_stats", v01),
  ("udpxy_clients", vRange 1 5000),
  ("udpxy_port", vRange 0 65535),
  ("udpxy_wanface", vText 0 8),
  ("block_loopback", v01),
  ("nf_loopback", vNum),
  ("fw_strict_input", v01),
  ("ne_syncookies", v01),
  ("DSCP_fix_enable", v01),
  ("ne_snat", vRange 0 2),
  ("wan_dhcp_pass", v01),
  ("ipsec_pass", vRange 0 3),
  ("fw_blackhole", v01),
  ("tcp_clamp_disable", v01),
  ("emf_entry", .none),
  ("emf_uffp_entry", .none),
  ("emf_rtport_entry", .none),
  ("emf_enable", v01),
  -- advanced-adblock
  ("adblock_enable", v01),
  ("adblock_blacklist", vLength 0 4096),
  ("adblock_blacklist_custom", vLength 0 4096),
  ("adblock_whitelist", vLength 0 4096),
  ("adblock_logs", vRange 0 7),
  ("adblock_limit", vLength 0 32),
  ("adblock_path", vLength 0 64),
  -- advanced-misc
  ("wait_time", vRange 0 30),
  ("wan_speed", vRange 0 4),
  ("jumbo_frame_enable", v01),
  ("jumbo_frame_size", vRange 1 9720),
  ("porthealth_cfg", vLength 0 128),
  ("zram_enable", v01),
  ("zram_size", vRange 0 32768),
  ("zram_priority", vRange (-1) 32767),
  ("zram_comp_algo", vLength 1 16),
  ("cpu_governor", vLength 0 16)]

def advancedVlan : List Nvset :=
  numbered upTo15 "vlan" "ports" (vText 0 40) ++
    numbered upTo15 "vlan" "hwname" (vText 0 100) ++ block [] [
  ("wan_ifnameX_vlan", vText 0 8),
  ("wan_ifnameX", vText 0 9),
  ("lan_ifnames", vText 0 256),
  ("lan_ifnames_vlan", vText 0 8),
  ("manual_boot_nv", v01),
  ("vlan0tag", vText 0 5)] ++
    numbered upTo15 "vlan" "vid" (vText 0 5)

def advancedPages : List Nvset := block [] [
  -- advanced-mac
  ("wan_mac", vLength 0 17),
  ("wl_macaddr", vLength 0 17),
  ("wl_hwaddr", vLength 0 17),
  ("wl_clap_hwaddr", vLength 0 17),
  -- advanced-routing
  ("routes_static", vLength 0 2048),
  ("dhcpc_33", v01),
  ("dhcpc_121", v01),
  ("force_igmpv2", v01),
  ("lan_stp", vRange 0 1),
  -- advanced-access
  ("lan_access", vLength 0 16384)]

def advancedWireless : List Nvset := block [] [
  ("wl_country_code", vLength 0 4),
  ("wl_country_rev", vRange 0 999),
  ("0:ccode", vLength 0 2),
  ("1:ccode", vLength 0 2),
  ("pci/1/1/ccode", vLength 0 2),
  ("pci/2/1/ccode", vLength 0 2),
  ("0:regrev", vRange 0 999),
  ("1:regrev", vRange 0 999),
  ("pci/1/1/regrev", vRange 0 999),
  ("pci/2/1/regrev", vRange 0 999),
  ("wl_btc_mode", vRange 0 2),
  ("wl_afterburner", vLength 2 4),
  ("wl_auth", v01),
  ("wl_rateset", vLength 2 7),
  ("wl_rate", vRange 0 (54 * 1000 * 1000)),
  ("wl_mrate", vRange 0 (54 * 1000 * 1000)),
  ("wl_gmode_protection", vLength 3 4),
  ("wl_frameburst", vOnOff),
  ("wl_bcn", vRange 1 65535),
  ("wl_dtim", vRange 1 255),
  ("wl_frag", vRange 256 2346),
  ("wl_rts", vRange 0 2347),
  ("wl_ap_isolate", v01),
  ("wl_plcphdr", vLength 4 5),
  ("wl_antdiv", vRange 0 3),
  ("wl_txant", vRange 0 3),
  ("wl_txpwr", vRange 0 1000),
  ("wl_wme", vWord),
  ("wl_wme_no_ack", vOnOff),
  ("wl_wme_apsd", vOnOff),
  ("wl_maxassoc", vRange 0 255),
  ("wl_bss_maxassoc", vRange 0 255),
  ("wl_distance", vLength 0 5),
  ("wlx_hpamp", v01),
  ("wlx_hperx", v01),
  ("wl_reg_mode", vLength 1 3),
  ("wl_mitigation", vRange 0 4),
  ("wl_optimizexbox", v01),
  ("wl_nmode_protection", vWord),
  ("wl_nmcsidx", vRange (-2) 32),
  ("wl_obss_coex", v01),
  ("wl_igs", v01),
  ("wl_wmf_bss_enable", v01),
  ("wl_wmf_ucigmp_query", v01),
  ("wl_wmf_mdata_sendup", v01),
  ("wl_wmf_ucast_upnp", v01),
  ("wl_wmf_igmpq_filter", v01),
  ("wl_psta_inact", vRange 0 3600),
  ("wl_atf", v01),
  ("wl_turbo_qam", vRange 0 2),
  ("wl_txbf", v01),
  ("wl_txbf_bfr_cap", vRange 0 2),
  ("wl_txbf_bfe_cap", vRange 0 2),
  ("wl_itxbf", v01),
  ("wl_txbf_imp", v01)]

def forwardPages : List Nvset := block [] [
  -- forward-dmz
  ("dmz_enable", v01),
  ("dmz_ipaddr", vLength 0 15),
  ("dmz_macaddr", vLength 0 17),
  ("dmz_sip", vLength 0 512),
  ("dmz_ra", v01),
  -- forward-upnp
  ("upnp_enable", vNum),
  ("upnp_secure", v01),
  ("upnp_port", vRange 0 65535),
  ("upnp_ssdp_interval", vRange 10 9999),
  ("upnp_min_port_int", vPort),
  ("upnp_max_port_int", vPort),
  ("upnp_min_port_ext", vPort),
  ("upnp_max_port_ext", vPort),
  ("upnp_lan", v01),
  ("upnp_custom", vText 0 2048),
  -- forward-basic
  ("portforward", vLength 0 4096),
  -- forward-basic-ipv6
  ("ipv6_portforward", vLength 0 4096),
  -- forward-triggered
  ("trigforward", vLength 0 4096),
  -- access restriction
  ("rruleN", vRange (-1) 99)]

def adminAccess : List Nvset := block [] [
  ("http_enable", v01),
  ("https_enable", v01),
  ("https_crt_save", v01),
  ("https_crt_cn", vLength 0 64),
  ("https_crt_gen", .temp),
  ("https_lanport", vPort),
  ("remote_mgt_https", v01),
  ("remote_management", v01),
  ("remote_upgrade", v01),
  ("http_wanport_bfm", v01),
  ("http_lanport", vPort),
  ("http_lan_listeners", vRange 0 127),
  ("http_ipv6", v01),
  ("web_wl_filter", v01),
  ("web_css", vLength 1 32),
  ("web_adv_scripts", v01),
  ("web_dir", vLength 1 32),
  ("ttb_css", vLength 0 128),
  ("ttb_loc", vLength 0 128),
  ("ttb_url", vLength 0 128),
  ("web_mx", vLength 0 128),
  ("http_wanport", vPort),
  ("telnetd_eas", v01),
  ("telnetd_port", vPort),
  ("sshd_eas", v01),
  ("sshd_pass", v01),
  ("sshd_port", vPort),
  ("sshd_remote", v01),
  ("sshd_motd", v01),
  ("sshd_forwarding", v01),
  ("sshd_rport", vPort),
  ("sshd_authkeys", vText 0 4096),
  ("rmgt_sip", vLength 0 512),
  ("ne_shlimit", vText 1 50),
  ("http_username", vLength 0 32)]

def adminMonitoring : List Nvset := block [] [
  -- admin-bwm
  ("rstats_enable", v01),
  ("rstats_path", vLength 0 48),
  ("rstats_stime", vRange 1 168),
  ("rstats_offset", vRange 1 31),
  ("rstats_exclude", vLength 0 64),
  ("rstats_sshut", v01),
  ("rstats_bak", v01),
  -- admin-ipt
  ("cstats_enable", v01),
  ("cstats_path", vLength 0 48),
  ("cstats_stime", vRange 1 168),
  ("cstats_offset", vRange 1 31),
  ("cstats_labels", vRange 0 2),
  ("cstats_exclude", vLength 0 512),
  ("cstats_include", vLength 0 2048),
  ("cstats_all", v01),
  ("cstats_sshut", v01),
  ("cstats_bak", v01),
  -- admin-buttons
  ("sesx_led", vRange 0 255),
  ("blink_wl", v01),
  ("btn_led_mode", v01),
  ("stealth_mode", v01),
  ("stealth_iled", v01),
  ("sesx_b0", vRange 0 5),
  ("sesx_b1", vRange 0 5),
  ("sesx_b2", vRange 0 5),
  ("sesx_b3", vRange 0 5),
  ("sesx_script", vText 0 1024),
  -- admin-debug
  ("debug_nocommit", v01),
  ("debug_cprintf", v01),
  ("debug_cprintf_file", v01),
  ("debug_logsegfault", v01),
  ("debug_ddns", v01),
  ("debug_norestart", vText 0 128),
  ("console_loglevel", vRange 1 8),
  ("t_cafree", v01),
  ("t_hidelr", v01),
  ("http_nocache", v01)]

def adminMaintenance : List Nvset := block [] [
  -- admin-sched
  ("sch_rboot", vText 0 64),
  ("sch_rcon", vText 0 64),
  ("sch_c1", vText 0 64),
  ("sch_c1_cmd", vText 0 2048),
  ("sch_c2", vText 0 64),
  ("sch_c2_cmd", vText 0 2048),
  ("sch_c3", vText 0 64),
  ("sch_c3_cmd", vText 0 2048),
  ("sch_c4", vText 0 64),
  ("sch_c4_cmd", vText 0 2048),
  ("sch_c5", vText 0 64),
  ("sch_c5_cmd", vText 0 2048),
  -- admin-scripts
  ("script_init", vText 0 4096),
  ("script_shut", vText 0 4096),
  ("script_fire", vText 0 8192),
  ("script_wanup", vText 0 4096),
  ("script_mwanup", vText 0 4096),
  -- admin-log
  ("log_remote", v01),
  ("log_remoteip", vLength 0 512),
  ("log_remoteport", vPort),
  ("log_file", v01),
  ("log_file_custom", v01),
  ("log_file_path", vText 0 4096),
  ("log_file_size", vRange 0 99999),
  ("log_file_keep", vRange 0 99),
  ("log_limit", vRange 0 2400),
  ("log_in", vRange 0 3),
  ("log_out", vRange 0 3),
  ("log_mark", vRange 0 99999),
  ("log_events", vText 0 32),
  ("log_dropdups", v01),
  ("log_min_level", vRange 1 8),
  -- admin-log-webmonitor
  ("log_wm", v01),
  ("log_wmtype", vRange 0 2),
  ("log_wmip", vLength 0 512),
  ("log_wmdmax", vRange 0 9999),
  ("log_wmsmax", vRange 0 9999),
  ("webmon_bkp", v01),
  ("webmon_dir", vLength 0 256),
  ("webmon_shrink", v01),
  -- admin-cifs
  ("cifs1", vLength 1 1024),
  ("cifs2", vLength 1 1024),
  -- admin-jffs2
  ("jffs2_on", v01),
  ("jffs2_exec", vLength 0 64),
  ("jffs2_format", v01),
  ("jffs2_auto_unmount", v01),
  -- admin-tomatoanon
  ("tomatoanon_enable", v01),
  ("tomatoanon_notify", v01),
  ("tomatoanon_id", vLength 0 32)]

def nasUsb : List Nvset := block [] [
  ("usb_enable", v01),
  ("usb_uhci", vRange (-1) 1),
  ("usb_ohci", vRange (-1) 1),
  ("usb_usb2", vRange (-1) 1),
  ("usb_usb3", vRange (-1) 1),
  ("usb_irq_thresh", vRange 0 6),
  ("usb_storage", v01),
  ("usb_printer", v01),
  ("usb_printer_bidirect", v01),
  ("usb_fs_ext4", v01),
  ("usb_fs_fat", v01),
  ("usb_fs_exfat", v01),
  ("usb_fs_ntfs", v01),
  ("usb_ntfs_driver", vLength 0 10),
  ("usb_apcupsd", v01),
  ("usb_apcupsd_custom", v01),
  ("usb_fs_hfs", v01),
  ("usb_hfs_driver", vLength 0 10),
  ("usb_fs_zfs", v01),
  ("usb_fs_zfs_automount", v01),
  ("zfs_mount_script", vText 0 2048),
  ("usb_automount", v01),
  ("script_usbhotplug", vText 0 2048),
  ("script_usbmount", vText 0 2048),
  ("script_usbumount", vText 0 2048),
  ("idle_enable", v01)]

def nasFtp : List Nvset := block [] [
  ("ftp_enable", vRange 0 2),
  ("ftp_super", v01),
  ("ftp_anonymous", vRange 0 3),
  ("ftp_dirlist", vRange 0 2),
  ("ftp_port", vPort),
  ("ftp_max", vRange 0 12),
  ("ftp_ipmax", vRange 0 12),
  ("ftp_staytimeout", vRange 0 65535),
  ("ftp_rate", vRange 0 99999),
  ("ftp_anonrate", vRange 0 99999),
  ("ftp_anonroot", vLength 0 256),
  ("ftp_pubroot", vLength 0 256),
  ("ftp_pvtroot", vLength 0 256),
  ("ftp_users", vLength 0 4096),
  ("ftp_custom", vText 0 2048),
  ("ftp_sip", vLength 0 512),
  ("ftp_limit", vText 1 50),
  ("ftp_tls", v01),
  ("log_ftp", v01),
  ("snmp_enable", vRange 0 1),
  ("snmp_port", vRange 1 65535),
  ("snmp_remote", vRange 0 1),
  ("snmp_remote_sip", vLength 0 512),
  ("snmp_location", vLength 0 40),
  ("snmp_contact", vLength 0 40),
  ("snmp_ro", vLength 0 40),
  ("snmp_name", vLength 0 40),
  ("snmp_descr", vLength 0 40)]

def nasMedia : List Nvset := block [] [
  -- nas-samba
  ("smbd_enable", vRange 0 2),
  ("smbd_wgroup", vLength 0 20),
  ("smbd_master", v01),
  ("smbd_wins", v01),
  ("smbd_cpage", vLength 0 4),
  ("smbd_cset", vLength 0 20),
  ("smbd_custom", vText 0 2048),
  ("smbd_autoshare", vRange 0 3),
  ("smbd_shares", vLength 0 4096),
  ("smbd_user", vLength 0 50),
  ("smbd_passwd", vLength 0 50),
  ("smbd_ifnames", vLength 0 50),
  ("smbd_protocol", vRange 0 5),
  ("gro_disable", v01),
  -- nas-media
  ("ms_enable", v01),
  ("ms_dirs", vLength 0 1024),
  ("ms_port", vRange 0 65535),
  ("ms_dbdir", vLength 0 256),
  ("ms_ifname", vLength 0 256),
  ("ms_tivo", v01),
  ("ms_stdlna", v01),
  ("ms_rescan", v01),
  ("ms_sas", v01),
  ("ms_autoscan", v01),
  ("ms_custom", vText 0 4096)]

def qosPages : List Nvset := block [] [
  -- qos
  ("qos_enable", v01),
  ("qos_mode", vNum),
  ("qos_ack", v01),
  ("qos_syn", v01),
  ("qos_fin", v01),
  ("qos_rst", v01),
  ("qos_icmp", v01),
  ("qos_udp", v01),
  ("qos_reset", v01),
  ("qos_pfifo", vNum),
  ("qos_classify", v01),
  ("qos_stats", v01),
  ("qos_cake_prio_mode", vNum),
  ("qos_cake_wash", v01),
  ("wan_qos_obw", vRange 10 99999999),
  ("wan_qos_ibw", vRange 10 99999999),
  ("wan_qos_overhead", vRange (-127) 128),
  ("wan_qos_encap", vNum),
  ("qos_irates", vLength 0 256),
  ("qos_orates", vLength 0 256),
  ("qos_orules", vLength 0 4096),
  ("qos_default", vRange 0 9),
  ("qos_classnames", vLength 10 128),
  ("ne_vegas", v01),
  ("ne_valpha", vNum),
  ("ne_vbeta", vNum),
  ("ne_vgamma", vNum),
  -- bwlimit
  ("bwl_enable", v01),
  ("bwl_rules", vLength 0 4096),
  ("bwl_lan_enable", v01),
  ("bwl_lan_dlc", vRange 0 99999999),
  ("bwl_lan_ulc", vRange 0 99999999),
  ("bwl_lan_dlr", vRange 0 99999999),
  ("bwl_lan_ulr", vRange 0 99999999),
  ("bwl_lan_tcp", vRange 0 1000),
  ("bwl_lan_udp", vRange 0 100),
  ("bwl_lan_prio", vRange 0 5),
  -- bandwidth quotas
  ("quota_enable", v01),
  ("quota_rules", vLength 0 8192),
  ("quota_nextid", vNum),
  ("quota_path", vLength 0 48),
  ("quota_stime", vRange 1 24)]

def nasTransmission : List Nvset := block [] [
  ("bt_enable", v01),
  ("bt_binary", vLength 0 50),
  ("bt_binary_custom", vLength 0 50),
  ("bt_custom", vText 0 2048),
  ("bt_port", vPort),
  ("bt_dir", vLength 0 50),
  ("bt_settings", vLength 0 50),
  ("bt_settings_custom", vLength 0 50),
  ("bt_incomplete", v01),
  ("bt_autoadd", v01),
  ("bt_rpc_enable", v01),
  ("bt_rpc_wan", v01),
  ("bt_auth", v01),
  ("bt_login", vLength 0 50),
  ("bt_password", vLength 0 50),
  ("bt_port_gui", vPort),
  ("bt_dl_enable", v01),
  ("bt_ul_enable", v01),
  ("bt_dl", vRange 0 999999),
  ("bt_ul", vRange 0 999999),
  ("bt_peer_limit_global", vRange 10 1000),
  ("bt_peer_limit_per_torrent", vRange 1 200),
  ("bt_ul_slot_per_torrent", vRange 1 50),
  ("bt_ratio_enable", v01),
  ("bt_ratio", vLength 0 999999),
  ("bt_ratio_idle_enable", v01),
  ("bt_ratio_idle", vRange 1 55),
  ("bt_dht", v01),
  ("bt_pex", v01),
  ("bt_lpd", v01),
  ("bt_utp", v01),
  ("bt_blocklist", v01),
  ("bt_blocklist_url", vLength 0 256),
  ("bt_sleep", vRange 1 60),
  ("bt_check_time", vRange 0 55),
  ("bt_dl_queue_enable", v01),
  ("bt_dl_queue_size", vRange 1 30),
  ("bt_ul_queue_enable", v01),
  ("bt_ul_queue_size", vRange 1 30),
  ("bt_message", vRange 0 3),
  ("bt_log", v01),
  ("bt_log_path", vLength 0 50),
  ("nfs_enable", v01),
  ("nfs_enable_v2", v01),
  ("nfs_exports", vLength 0 4096)]

def webNginx : List Nvset := block [] [
  -- splashd
  ("NC_enable", v01),
  ("NC_Verbosity", vRange 0 10),
  ("NC_GatewayName", vLength 0 255),
  ("NC_GatewayPort", vPort),
  ("NC_ForcedRedirect", v01),
  ("NC_HomePage", vLength 0 255),
  ("NC_DocumentRoot", vLength 0 255),
  ("NC_SplashURL", vLength 0 255),
  ("NC_LoginTimeout", vRange 0 86400000),
  ("NC_IdleTimeout", vRange 0 86400000),
  ("NC_MaxMissedARP", vRange 0 10),
  ("NC_PeerChecktimeout", vRange 0 60),
  ("NC_ExcludePorts", vLength 0 255),
  ("NC_IncludePorts", vLength 0 255),
  ("NC_AllowedWebHosts", vLength 0 255),
  ("NC_MACWhiteList", vLength 0 255),
  ("NC_SplashFile", vLength 0 8192),
  ("NC_BridgeLAN", vLength 0 50),
  -- web-nginx
  ("nginx_enable", v01),
  ("nginx_php", v01),
  ("nginx_keepconf", v01),
  ("nginx_docroot", vLength 0 255),
  ("nginx_port", vPort),
  ("nginx_fqdn", vLength 0 255),
  ("nginx_upload", vLength 1 1000),
  ("nginx_remote", v01),
  ("nginx_priority", vLength 0 255),
  ("nginx_custom", vText 0 4096),
  ("nginx_httpcustom", vText 0 4096),
  ("nginx_servercustom", vText 0 4096),
  ("nginx_phpconf", vText 0 4096),
  ("nginx_phpfpmconf", vText 0 4096),
  ("nginx_user", vLength 0 255),
  ("nginx_override", v01),
  ("nginx_overridefile", vText 0 4096),
  ("nginx_h5aisupport", v01),
  ("nginx_sleep", vRange 1 60)]

def webMysql : List Nvset := block [] [
  -- web-mysql
  ("mysql_enable", v01),
  ("mysql_sleep", vRange 1 60),
  ("mysql_check_time", vRange 0 55),
  ("mysql_binary", vLength 0 50),
  ("mysql_binary_custom", vLength 0 50),
  ("mysql_usb_enable", v01),
  ("mysql_dlroot", vLength 0 50),
  ("mysql_datadir", vLength 0 64),
  ("mysql_tmpdir", vLength 0 64),
  ("mysql_server_custom", vText 0 1024),
  ("mysql_port", vPort),
  ("mysql_allow_anyhost", v01),
  ("mysql_init_rootpass", v01),
  ("mysql_username", vText 0 50),
  ("mysql_passwd", vText 0 50),
  ("mysql_key_buffer", vRange 0 1024),
  ("mysql_max_allowed_packet", vRange 0 1024),
  ("mysql_thread_stack", vRange 0 1024000),
  ("mysql_thread_cache_size", vRange 0 999999),
  ("mysql_init_priv", v01),
  ("mysql_table_open_cache", vRange 1 999999),
  ("mysql_sort_buffer_size", vRange 0 1024000),
  ("mysql_read_buffer_size", vRange 0 1024000),
  ("mysql_query_cache_size", vRange 0 1024),
  ("mysql_read_rnd_buffer_size", vRange 0 1024000),
  ("mysql_net_buffer_length", vRange 0 1024),
  ("mysql_max_connections", vRange 0 999999),
  -- openvpn
  ("vpns_eas", .none),
  ("vpns_dns", .none),
  ("vpnc_eas", .none)]

def pptpServer : List Nvset := block [] [
  ("pptpd_enable", v01),
  ("pptpd_remoteip", vText 0 24),
  ("pptpd_forcemppe", v01),
  ("pptpd_users", vText 0 (67*16)),
  ("pptpd_broadcast", vText 0 8),
  ("pptpd_dns1", vText 0 15),
  ("pptpd_dns2", vText 0 15),
  ("pptpd_wins1", vText 0 15),
  ("pptpd_wins2", vText 0 15),
  ("pptpd_mtu", vRange 576 1500),
  ("pptpd_mru", vRange 576 1500),
  ("pptpd_custom", vText 0 2048),
  ("tinc_enable", vRange 0 1),
  ("tinc_name", vLength 0 30),
  ("tinc_devicetype", vText 3 3),
  ("tinc_mode", vText 3 6),
  ("tinc_vpn_netmask", vIp),
  ("tinc_private_rsa", .none),
  ("tinc_private_ed25519", .none),
  ("tinc_custom", .none),
  ("tinc_hosts", .none),
  ("tinc_manual_firewall", vRange 0 2),
  ("tinc_manual_tinc_up", vRange 0 1),
  ("tinc_poll", vRange 0 1440)]

def tincTor : List Nvset := block [] [
  ("tinc_tinc_up", .none),
  ("tinc_tinc_down", .none),
  ("tinc_host_up", .none),
  ("tinc_host_down", .none),
  ("tinc_subnet_up", .none),
  ("tinc_subnet_down", .none),
  ("tinc_firewall", .none),
  ("tor_enable", v01),
  ("tor_solve_only", v01),
  ("tor_socksport", vRange 1 65535),
  ("tor_transport", vRange 1 65535),
  ("tor_dnsport", vRange 1 65535),
  ("tor_ctrlport", vRange 1 65535),
  ("tor_datadir", vText 0 24),
  ("tor_iface", vLength 0 50),
  ("tor_users", vLength 0 4096),
  ("tor_ports", vLength 0 50),
  ("tor_ports_custom", vLength 0 4096),
  ("tor_custom", vText 0 2048),
  ("pptpc_eas", v01),
  ("pptpc_usewan", vText 0 5),
  ("pptpc_peerdns", vRange 0 2),
  ("pptpc_mtuenable", v01),
  ("pptpc_mtu", vRange 576 1500),
  ("pptpc_mruenable", v01),
  ("pptpc_mru", vRange 576 1500),
  ("pptpc_nat", v01),
  ("pptpc_srvip", .none),
  ("pptpc_srvsub", vIp),
  ("pptpc_srvsubmsk", vIp),
  ("pptpc_username", vText 0 50),
  ("pptpc_passwd", vText 0 50),
  ("pptpc_crypt", vRange 0 3),
  ("pptpc_custom", .none),
  ("pptpc_dfltroute", v01),
  ("pptpc_stateless", v01),
  ("pptpd_chap", vRange 0 2)]

def wireguardPage : List Nvset := block [] [
  ("wg_adns", .none)]

def wifiPages : List Nvset := block [] [
  ("wifi_sta_list", .none),
  ("wifi_phy_count", vRange 0 10),
  ("wifi_phy_count_expected", vRange 0 10)]

def portPages : List Nvset := block [] [
  ("flow_offloading", vRange 0 2),
  ("wed_offloading", vRange 0 1),
  ("bridger_enable", v01),
  ("packet_steering", vRange 0 2),
  ("steering_flows", .none),
  ("steering_flows_custom", vRange 0 99999)] ++
  numbered upTo9 "port" "_label" (vLength 0 20) ++ block [] [
  ("fan_mode", v01),
  ("fan_pwm", vLength 0 256),
  ("fan_trips", vLength 0 512),
  ("fan_curve", vLength 0 1024)]

/-- `nvset_list` of a build with every package of the default configuration. -/
def nvsetList : List Nvset :=
  basicPages ++ basicDdns ++ basicNetworkWan ++ basicNetworkLan ++
    basicNetworkWireless ++ basicIpv6 ++ advancedDhcpdns ++
    advancedFirewall ++ advancedVlan ++ advancedPages ++ advancedWireless ++
    forwardPages ++ adminAccess ++ adminMonitoring ++ adminMaintenance ++
    nasUsb ++ nasFtp ++ nasMedia ++ qosPages ++ nasTransmission ++ webNginx ++
    webMysql ++ pptpServer ++ tincTor ++ wireguardPage ++
    ["2", "3", "4"].flatMap wanBlock ++
    ["1", "2", "3", "4", "5", "6", "7"].flatMap bridgeBlock ++
    ["1", "2", "3"].flatMap ovpncBlock ++
    ["1", "2", "3", "4"].flatMap ovpnsBlock ++
    ["0", "1", "2"].flatMap wgBlock ++ wifiPages ++
    ["0", "1", "2"].flatMap wifiBlock ++ portPages

/-! ## No name is listed twice -/

def savedPieces (entries : List Nvset) : List (List String) :=
  entries.map Nvset.pieces ++
    ["http_passwd"] :: (List.range ruleCount).map fun index =>
      ["rrule", toString index]

theorem savedNames_eq_map (entries : List Nvset) :
    savedNames entries = (savedPieces entries).map String.join := by
  rw [savedNames, savedPieces, List.map_append, List.map_cons, List.map_map,
    List.map_map]
  congr 2

theorem nodup_savedNames : (savedNames nvsetList).Nodup := by
  rw [savedNames_eq_map]
  delta nvsetList
  simp only [List.append_assoc]
  -- the base is one under which no two fingerprints of this table collide
  exact nodup_join_of_distinctFrom 194209 380027 (by decide +kernel)

def nvsetTable : NvsetTable :=
  ⟨nvsetList, nodup_savedNames⟩

/-- Whatever is posted, a form is saved as a whole or not at all, and nothing
but the listed variables, the password and the rules can change. -/
theorem nvsetList_allOrNothing (posted : Posted) (nvram : Nvram) :
    AllOrNothing nvsetList posted nvram :=
  nvsetTable.allOrNothing posted nvram

end Tomato64.SettingsTable
