import PiiProxy.Context.Engine
import PiiProxy.Detectors.Documents
import PiiProxy.Detectors.FullName
import PiiProxy.Detectors.Phrases

/-!
# The built-in pipeline

The detectors that the application registers (`app/detectors/builtin.py`) and the pipeline that it
builds from them (`app/main.py`).

## Main definitions

* `builtinDetectors`, `builtinPipeline`.
-/

namespace PiiProxy

/-- `register_builtin_detectors`. -/
def builtinDetectors (rt : Runtime) : DetectorRegistry :=
  [emailDetector, fullNameDetector rt, phoneDetector rt.unicode, innDetector rt.unicode,
    cardDetector rt.unicode, passportDetector rt.unicode, departmentCodeDetector rt.unicode,
    cvvDetector rt.unicode, pinDetector rt.unicode, driverLicenseDetector rt.unicode,
    dateDetector rt.unicode, cardholderDetector rt.unicode, addressDetector rt.unicode,
    birthPlaceDetector rt.unicode, citizenshipDetector rt.unicode,
    passportIssuerDetector rt.unicode]

/-- The pipeline of the application. -/
def builtinPipeline (rt : Runtime) : Pipeline where
  runtime := rt
  detectors := builtinDetectors rt
  decider := ContextualPrivacyEngine.decider { unicode := rt.unicode }

end PiiProxy
