import AddonBuilder.Application.Settings
import AddonBuilder.Text.Split

/-!
# Applications
-/

namespace AddonBuilder.Application

open Json

/-- The applications that run add-ons. -/
inductive Product where
  | firefox
  | thunderbird
  | xulrunner
  | fennec
deriving DecidableEq, Repr

namespace Product

def ofName? : String → Option Product
  | "firefox" => some firefox
  | "thunderbird" => some thunderbird
  | "xulrunner" => some xulrunner
  | "fennec" => some fennec
  | _ => none

/-- Whether programs of a platform are found on the search path. -/
def isUnix (platform : String) : Bool :=
  ["linux2", "sunos5", "solaris"].contains platform || Text.beginsWith platform "freebsd"

/-- The names of an application's program, the preferred one first; there may be none for a platform. -/
def names? (platform : String) : Product → Option (List String)
  | firefox =>
    if platform = "darwin" then some ["firefox", "nightly", "shiretoko"]
    else if isUnix platform then some ["firefox", "mozilla-firefox", "iceweasel"]
    else if platform = "cygwin" then some ["firefox"]
    else none
  | thunderbird => some ["thunderbird", "shredder"]
  | xulrunner => some ["xulrunner"]
  | fennec => some ["fennec"]

def bundles : Product → List String
  | firefox => ["Firefox", "FirefoxNightly", "Nightly"]
  | thunderbird => ["Thunderbird", "Shredder"]
  | _ => []

/-- The settings that a profile for the application starts with. -/
def profileSettings : Product → Settings
  | firefox => settings [ ("app.update.enabled", .bool false),
    ("browser.sessionstore.resume_from_crash", .bool false),
    ("browser.shell.checkDefaultBrowser", .bool false),
    ("browser.tabs.warnOnClose", .bool false),
    ("browser.warnOnQuit", .bool false),
    ("extensions.enabledScopes", .int 5),
    ("extensions.update.enabled", .bool false),
    ("extensions.update.notifyUser", .bool false)]
  | thunderbird => settings [ ("extensions.update.enabled", .bool false),
    ("extensions.update.notifyUser", .bool false),
    ("browser.shell.checkDefaultBrowser", .bool false),
    ("browser.tabs.warnOnClose", .bool false),
    ("browser.warnOnQuit", .bool false),
    ("browser.sessionstore.resume_from_crash", .bool false)]
  | _ => []

end Product

end AddonBuilder.Application
