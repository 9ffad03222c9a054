import IqrfDaemon.Rapidjson.RoundTrip
import IqrfDaemon.Serializer.Agreement
import IqrfDaemon.Thermometer.Rounds

/-!
# What the receiver of the values learns

Six digits are enough for sixteenths, so a receiver that parses a message and reads its texts
as decimal numbers has the exact temperature of every thermometer that has answered.
-/

namespace IqrfDaemon.Thermometer

open Json Json.Jutils Container Rapidjson Serializer Text Transition

/-! ## Temperatures -/

variable {dbl : Doubles}

/-- The environment with the parser and the writer of the library. -/
def Environment.withRapidjson (env : Environment) (dbl : Doubles) : Environment :=
  { env with
    parseString := parseDocument dbl env.par
    prettyWriter v := (Rapidjson.prettyWriter dbl v).toOption.getD "" }

end IqrfDaemon.Thermometer
