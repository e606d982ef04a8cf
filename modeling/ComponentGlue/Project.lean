import ComponentGlue.Table
import ComponentGlue.Text

set_option autoImplicit false
set_option relaxedAutoImplicit false

namespace ComponentGlue

/-- Constants by service type. -/
structure Services where
  constants : Table String String

namespace Services

def empty : Services := ⟨.empty⟩

def register (s : Services) (type constant : String) : Services :=
  ⟨s.constants.insert type constant⟩

/-- The services every platform has. -/
def standardEntries : List (String × String) :=
  [("android.accounts.AccountManager", "ACCOUNT_SERVICE"),
    ("android.app.ActivityManager", "ACTIVITY_SERVICE"),
    ("android.app.AlarmManager", "ALARM_SERVICE"),
    ("android.app.KeyguardManager", "KEYGUARD_SERVICE"),
    ("android.app.NotificationManager", "NOTIFICATION_SERVICE"),
    ("android.app.SearchManager", "SEARCH_SERVICE"),
    ("android.content.ClipboardManager", "CLIPBOARD_SERVICE"),
    ("android.hardware.SensorManager", "SENSOR_SERVICE"),
    ("android.location.LocationManager", "LOCATION_SERVICE"),
    ("android.media.AudioManager", "AUDIO_SERVICE"),
    ("android.net.ConnectivityManager", "CONNECTIVITY_SERVICE"),
    ("android.net.wifi.WifiManager", "WIFI_SERVICE"),
    ("android.os.PowerManager", "POWER_SERVICE"),
    ("android.os.Vibrator", "VIBRATOR_SERVICE"),
    ("android.telephony.TelephonyManager", "TELEPHONY_SERVICE"),
    ("android.view.LayoutInflater", "LAYOUT_INFLATER_SERVICE"),
    ("android.view.WindowManager", "WINDOW_SERVICE"),
    ("android.view.inputmethod.InputMethodManager", "INPUT_METHOD_SERVICE")]

def registerAll (s : Services) (entries : List (String × String)) : Services :=
  entries.foldl (fun s e => s.register e.1 e.2) s

def standard : Services := empty.registerAll standardEntries

/-- The constant of a service type: the one of exactly this name, else the first whose simple name
it is. -/
def constantFor? (s : Services) (type : String) : Option String :=
  match s.constants.get? type with
  | some constant => some constant
  | none => (s.constants.entries.find? (fun e => simpleName e.1 == type)).map Prod.snd

def qualified? (s : Services) (type : String) : Option String :=
  s.constants.keys.find? (fun q => q == type || simpleName q == type)

def size (s : Services) : Nat := s.constants.size

end Services

structure Project where
  package : String
  application : Option String
  /-- The registered components; an empty list means that registration is not checked. -/
  components : List String
  /-- What a generated type's name adds to the name of its origin. -/
  suffix : String
  services : Services

namespace Project

def new (package : String) : Project where
  package := package
  application := none
  components := []
  suffix := "_"
  services := .standard

def generatedName (p : Project) (origin : String) : String := origin ++ p.suffix

def isRegistered (p : Project) (component : String) : Bool :=
  p.components.isEmpty || p.components.contains component

end Project

end ComponentGlue
