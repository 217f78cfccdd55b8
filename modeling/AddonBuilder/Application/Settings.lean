import AddonBuilder.Json.Value

/-!
# Settings with which applications are started

A run starts with the common table and adds those that its kind and its application ask for.
-/

namespace AddonBuilder.Application

open Json Value

/-- Settings by name; a later table replaces those of an earlier one. -/
abbrev Settings := Members

def settings (entries : List (String × Value)) : Settings :=
  entries.map fun (name, v) => (Text.ofString name, v)

namespace Settings

/-- The settings of every run: output goes to the console, and updates stay away. -/
def common : Settings := settings [ ("browser.dom.window.dump.enabled", .bool true),
  ("javascript.options.showInConsole", .bool true),
  ("devtools.debugger.remote-enabled", .bool true),
  ("extensions.sdk.console.logLevel", str "info"),
  ("extensions.checkCompatibility.nightly", .bool false),
  ("extensions.update.enabled", .bool false),
  ("lightweightThemes.update.enabled", .bool false),
  ("extensions.update.notifyUser", .bool false),
  ("extensions.enabledScopes", .int 5),
  ("extensions.getAddons.cache.enabled", .bool false),
  ("extensions.installDistroAddons", .bool false),
  ("extensions.autoDisableScopes", .int 10),
  ("app.releaseNotesURL", str "http://localhost/app-dummy/"),
  ("app.vendorURL", str "http://localhost/app-dummy/"),
  ("browser.displayedE10SPrompt.1", .int 5)]

/-- The settings of a run without connections: every remote address is replaced by a local one. -/
def noConnections : Settings := settings [ ("toolkit.telemetry.enabled", .bool false),
  ("toolkit.telemetry.server", str "https://localhost/telemetry-dummy/"),
  ("app.update.auto", .bool false),
  ("app.update.url", str "http://localhost/app-dummy/update"),
  ("media.gmp-gmpopenh264.autoupdate", .bool false),
  ("media.gmp-manager.cert.checkAttributes", .bool false),
  ("media.gmp-manager.cert.requireBuiltIn", .bool false),
  ("media.gmp-manager.url", str "http://localhost/media-dummy/gmpmanager"),
  ("media.gmp-manager.url.override", str "http://localhost/dummy-gmp-manager.xml"),
  ("browser.newtab.url", str "about:blank"),
  ("browser.search.update", .bool false),
  ("browser.safebrowsing.enabled", .bool false),
  ("browser.safebrowsing.updateURL", str "http://localhost/safebrowsing-dummy/update"),
  ("browser.safebrowsing.gethashURL", str "http://localhost/safebrowsing-dummy/gethash"),
  ("browser.safebrowsing.reportURL", str "http://localhost/safebrowsing-dummy/report"),
  ("browser.safebrowsing.malware.reportURL", str "http://localhost/safebrowsing-dummy/malwarereport"),
  ("browser.trackingprotection.gethashURL", str "http://localhost/safebrowsing-dummy/gethash"),
  ("browser.trackingprotection.updateURL", str "http://localhost/safebrowsing-dummy/update"),
  ("app.update.enabled", .bool false),
  ("app.update.staging.enabled", .bool false),
  ("browser.newtabpage.directory.source", str "data:application/json,\x7b\"jetpack\":1\x7d"),
  ("browser.newtabpage.directory.ping", str ""),
  ("extensions.update.url", str "http://localhost/extensions-dummy/updateURL"),
  ("extensions.update.background.url", str "http://localhost/extensions-dummy/updateBackgroundURL"),
  ("extensions.blocklist.url", str "http://localhost/extensions-dummy/blocklistURL"),
  ("extensions.webservice.discoverURL", str "http://localhost/extensions-dummy/discoveryURL"),
  ("extensions.getAddons.maxResults", .int 0),
  ("browser.webapps.checkForUpdates", .int 0),
  ("geo.wifi.uri", str "http://localhost/extensions-dummy/geowifiURL"),
  ("browser.search.geoip.url", str "http://localhost/location-dummy/locationURL"),
  ("browser.search.isUS", .bool true),
  ("browser.search.countryCode", str "US"),
  ("geo.wifi.scan", .bool false),
  ("identity.fxaccounts.auth.uri", str "http://localhost/fxa-dummy/")]

def mobile : Settings := settings [ ("browser.console.showInPanel", .bool true),
  ("browser.firstrun.show.uidiscovery", .bool false)]

def browser : Settings := settings [ ("browser.startup.homepage", str "about:blank"),
  ("startup.homepage_welcome_url", str "about:blank"),
  ("devtools.browsertoolbox.panel", str "jsdebugger"),
  ("devtools.errorconsole.enabled", .bool true),
  ("devtools.chrome.enabled", .bool true),
  ("urlclassifier.updateinterval", .int 172800),
  ("browser.safebrowsing.provider.0.gethashURL", str "http://localhost/safebrowsing-dummy/gethash"),
  ("browser.safebrowsing.provider.0.updateURL", str "http://localhost/safebrowsing-dummy/update")]

/-- The settings of the mail application: accounts that lead nowhere. -/
def mail : Settings := settings [ ("dom.max_chrome_script_run_time", .int 200),
  ("dom.max_script_run_time", .int 0),
  ("mail.shell.checkDefaultClient", .bool false),
  ("mail.winsearch.enable", .bool false),
  ("mail.winsearch.firstRunDone", .bool true),
  ("mail.spotlight.enable", .bool false),
  ("mail.spotlight.firstRunDone", .bool true),
  ("ldap_2.servers.osx.position", .int 0),
  ("ldap_2.servers.oe.position", .int 0),
  ("mailnews.ui.junk.firstuse", .bool false),
  ("mail.account.account1.server", str "server1"),
  ("mail.account.account2.identities", str "id1"),
  ("mail.account.account2.server", str "server2"),
  ("mail.accountmanager.accounts", str "account1,account2"),
  ("mail.accountmanager.defaultaccount", str "account2"),
  ("mail.accountmanager.localfoldersserver", str "server1"),
  ("mail.identity.id1.fullName", str "Tinderbox"),
  ("mail.identity.id1.smtpServer", str "smtp1"),
  ("mail.identity.id1.useremail", str "tinderbox@invalid.com"),
  ("mail.identity.id1.valid", .bool true),
  ("mail.root.none-rel", str "[ProfD]Mail"),
  ("mail.root.pop3-rel", str "[ProfD]Mail"),
  ("mail.server.server1.directory-rel", str "[ProfD]Mail/Local Folders"),
  ("mail.server.server1.hostname", str "Local Folders"),
  ("mail.server.server1.name", str "Local Folders"),
  ("mail.server.server1.type", str "none"),
  ("mail.server.server1.userName", str "nobody"),
  ("mail.server.server2.check_new_mail", .bool false),
  ("mail.server.server2.directory-rel", str "[ProfD]Mail/tinderbox"),
  ("mail.server.server2.download_on_biff", .bool true),
  ("mail.server.server2.hostname", str "tinderbox"),
  ("mail.server.server2.login_at_startup", .bool false),
  ("mail.server.server2.name", str "tinderbox@invalid.com"),
  ("mail.server.server2.type", str "pop3"),
  ("mail.server.server2.userName", str "tinderbox"),
  ("mail.smtp.defaultserver", str "smtp1"),
  ("mail.smtpserver.smtp1.hostname", str "tinderbox"),
  ("mail.smtpserver.smtp1.username", str "tinderbox"),
  ("mail.smtpservers", str "smtp1"),
  ("mail.startup.enabledMailCheckOnce", .bool true),
  ("mailnews.start_page_override.mstone", str "ignore")]

/-- The settings of a test run: no dialogs, no animations, no delays. -/
def tests : Settings := settings [ ("browser.console.showInPanel", .bool true),
  ("browser.startup.page", .int 0),
  ("browser.firstrun.show.localepicker", .bool false),
  ("browser.firstrun.show.uidiscovery", .bool false),
  ("browser.ui.layout.tablet", .int 0),
  ("dom.disable_open_during_load", .bool false),
  ("dom.experimental_forms", .bool true),
  ("dom.forms.number", .bool true),
  ("dom.forms.color", .bool true),
  ("dom.max_script_run_time", .int 0),
  ("hangmonitor.timeout", .int 0),
  ("dom.max_chrome_script_run_time", .int 0),
  ("dom.popup_maximum", .int (-1)),
  ("dom.send_after_paint_to_content", .bool true),
  ("dom.successive_dialog_time_limit", .int 0),
  ("browser.shell.checkDefaultBrowser", .bool false),
  ("shell.checkDefaultClient", .bool false),
  ("browser.warnOnQuit", .bool false),
  ("accessibility.typeaheadfind.autostart", .bool false),
  ("browser.EULA.override", .bool true),
  ("gfx.color_management.force_srgb", .bool true),
  ("network.manage-offline-status", .bool false),
  ("network.http.speculative-parallel-limit", .int 0),
  ("test.mousescroll", .bool true),
  ("security.default_personal_cert", str "Select Automatically"),
  ("network.http.prompt-temp-redirect", .bool false),
  ("security.warn_viewing_mixed", .bool false),
  ("browser.panorama.experienced_first_run", .bool true),
  ("toolkit.telemetry.prompted", .int 999),
  ("toolkit.telemetry.notifiedOptOut", .int 999),
  ("extensions.defaultProviders.enabled", .bool true),
  ("datareporting.policy.dataSubmissionPolicyBypassNotification", .bool true),
  ("layout.css.report_errors", .bool true),
  ("layout.css.grid.enabled", .bool true),
  ("layout.spammy_warnings.enabled", .bool false),
  ("dom.mozSettings.enabled", .bool true),
  ("network.http.bypass-cachelock-threshold", .int 200000),
  ("geo.provider.testing", .bool true),
  ("browser.pagethumbnails.capturing_disabled", .bool true),
  ("browser.download.panel.shown", .bool true),
  ("browser.newtabpage.introShown", .bool true),
  ("general.useragent.updates.enabled", .bool false),
  ("dom.mozApps.debug", .bool true),
  ("dom.apps.customization.enabled", .bool true),
  ("media.eme.enabled", .bool true),
  ("media.eme.apiVisible", .bool true),
  ("dom.ipc.tabs.shutdownTimeoutSecs", .int 0),
  ("general.useragent.locale", str "en-US"),
  ("intl.locale.matchOS", str "en-US"),
  ("dom.indexedDB.experimental", .bool true)]

/-- The tables by the names under which they can be asked for. -/
def named? : String → Option Settings
  | "COMMON" => some common
  | "NO_CONNECTIONS" => some noConnections
  | "FENNEC" => some mobile
  | "FIREFOX" => some browser
  | "THUNDERBIRD" => some mail
  | "TEST" => some tests
  | _ => none

end Settings

end AddonBuilder.Application
