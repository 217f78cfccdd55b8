import AddonBuilder.Assoc

/-!
# Modules that have moved

Modules of the library that once had a short name, with the name under which they are found now.
-/

namespace AddonBuilder.Linker

def relocated : Assoc String String := [ ("api-utils", "sdk/deprecated/api-utils"),
  ("base64", "sdk/base64"),
  ("content", "sdk/content/content"),
  ("deprecate", "sdk/util/deprecate"),
  ("event/core", "sdk/event/core"),
  ("events", "sdk/deprecated/events"),
  ("functional", "sdk/core/functional"),
  ("l10n/core", "sdk/l10n/json/core"),
  ("l10n/html", "sdk/l10n/html"),
  ("l10n/loader", "sdk/l10n/loader"),
  ("l10n/locale", "sdk/l10n/locale"),
  ("l10n/prefs", "sdk/l10n/prefs"),
  ("list", "sdk/util/list"),
  ("loader", "sdk/loader/loader"),
  ("memory", "sdk/deprecated/memory"),
  ("namespace", "sdk/core/namespace"),
  ("preferences-service", "sdk/preferences/service"),
  ("promise", "sdk/core/promise"),
  ("system", "sdk/system"),
  ("system/events", "sdk/system/events"),
  ("tabs/tab", "sdk/tabs/tab"),
  ("tabs/utils", "sdk/tabs/utils"),
  ("timer", "sdk/timers"),
  ("traits", "sdk/deprecated/traits"),
  ("unload", "sdk/system/unload"),
  ("window-utils", "sdk/deprecated/window-utils"),
  ("window/utils", "sdk/window/utils"),
  ("windows/dom", "sdk/windows/dom"),
  ("windows/loader", "sdk/windows/loader"),
  ("xul-app", "sdk/system/xul-app"),
  ("url", "sdk/url"),
  ("traceback", "sdk/console/traceback"),
  ("xhr", "sdk/net/xhr"),
  ("match-pattern", "sdk/util/match-pattern"),
  ("file", "sdk/io/file"),
  ("runtime", "sdk/system/runtime"),
  ("xpcom", "sdk/platform/xpcom"),
  ("querystring", "sdk/querystring"),
  ("text-streams", "sdk/io/text-streams"),
  ("app-strings", "sdk/deprecated/app-strings"),
  ("light-traits", "sdk/deprecated/light-traits"),
  ("environment", "sdk/system/environment"),
  ("keyboard/utils", "sdk/keyboard/utils"),
  ("dom/events", "sdk/dom/events"),
  ("utils/data", "sdk/io/data"),
  ("test/assert", "sdk/test/assert"),
  ("hidden-frame", "sdk/frame/hidden-frame"),
  ("collection", "sdk/util/collection"),
  ("array", "sdk/util/array"),
  ("cortex", "sdk/deprecated/cortex"),
  ("clipboard", "sdk/clipboard"),
  ("context-menu", "sdk/context-menu"),
  ("hotkeys", "sdk/hotkeys"),
  ("indexed-db", "sdk/indexed-db"),
  ("l10n", "sdk/l10n"),
  ("notifications", "sdk/notifications"),
  ("page-mod", "sdk/page-mod"),
  ("page-worker", "sdk/page-worker"),
  ("panel", "sdk/panel"),
  ("passwords", "sdk/passwords"),
  ("private-browsing", "sdk/private-browsing"),
  ("request", "sdk/request"),
  ("selection", "sdk/selection"),
  ("self", "sdk/self"),
  ("simple-prefs", "sdk/simple-prefs"),
  ("simple-storage", "sdk/simple-storage"),
  ("tabs", "sdk/tabs"),
  ("timers", "sdk/timers"),
  ("widget", "sdk/widget"),
  ("windows", "sdk/windows"),
  ("harness", "sdk/test/harness"),
  ("run-tests", "sdk/test/runner"),
  ("test", "sdk/test")]

end AddonBuilder.Linker
