import ConfigStore.Error

/-! The value of a key is read strictly, and a fault is reported for that key. -/

namespace ConfigStore

/-- Reads the value of a key strictly as a type. -/
def Value.read (value : Value) (type : StrictType) (name key : String) : Except ConfigError StrictValue :=
  (type.read value.text).mapError (.conversion name key type)

end ConfigStore
