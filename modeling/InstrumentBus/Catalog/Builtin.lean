import InstrumentBus.Catalog.Basic

/-!
# The built-in signals

The signals of a cockpit that every node knows: positions and angles in steps of
a full turn, everything else in hundredths.
-/

namespace InstrumentBus
namespace Catalog

open Numeric Signal Wire

def builtinVersion : UInt32 := 1

/-- The timeout of every built-in signal, in milliseconds. -/
def builtinTimeout : UInt32 := 1000

def hundredth : Binary64 := .ofDecimal false 1 (-2)

def angle (name : String) (category subcategory : UInt8) (description : String) : Definition :=
  ⟨name, description, ⟨category, subcategory⟩, builtinTimeout, .scaled degreesPerTurnStep, "deg"⟩

def quantity (name : String) (category subcategory : UInt8) (units description : String) :
    Definition :=
  ⟨name, description, ⟨category, subcategory⟩, builtinTimeout, .scaled hundredth, units⟩

/-- The built-in definitions in the order of their table. -/
def builtinDefinitions : List Definition := [
  angle "gps_latitude" 10 10 "GPS latitude",
  angle "gps_longitude" 10 11 "GPS longitude",
  quantity "altitude_msl" 10 20 "ft" "Altitude above mean sea level",
  quantity "altitude_agl" 10 21 "ft" "Altitude above ground level",
  quantity "altitude_rate" 10 22 "ft/min" "Rate of altitude change",
  quantity "vertical_speed" 10 23 "ft/min" "Vertical speed",
  angle "heading_true" 10 30 "True heading",
  angle "heading_mag" 10 31 "Magnetic heading",
  angle "ground_track" 10 32 "Ground track",
  angle "magnetic_variation" 10 33 "Magnetic variation",
  angle "att_pitch" 10 40 "Attitude pitch",
  angle "att_roll" 10 41 "Attitude roll",
  quantity "speed_ias" 10 50 "kt" "Indicated airspeed",
  quantity "speed_gs" 10 51 "kt" "Ground speed",
  quantity "engine_rpm" 20 10 "rpm" "Engine speed",
  quantity "oil_pressure" 20 20 "psi" "Engine oil pressure",
  quantity "oil_temperature" 20 21 "degC" "Engine oil temperature"]

/-- The built-in catalog. Its definitions are added without a check. -/
def builtin : Catalog := builtinDefinitions.foldl push (blank builtinVersion .standard)

end Catalog
end InstrumentBus
