import ConfigStore.Number.Integer
import ConfigStore.Number.Leading
import ConfigStore.Number.Shortest
import ConfigStore.Number.SixDigits
import ConfigStore.Text.Case

/-! A setting's value is text. Reading it as a number or a truth value never fails: text that is neither reads
as zero or false. -/

namespace ConfigStore

/-- The text of a setting. -/
structure Value where
  /-- The text. -/
  text : String
  deriving DecidableEq, Repr

namespace Value

/-- The text of true. -/
def trueText : String := "TRUE"

/-- The text of false. -/
def falseText : String := "FALSE"

/-- The whole number at the start of a value. -/
def toInt (value : Value) : Int := leadingInt value.text.toList

/-- A value is true if it is the text of true in any case. -/
def toBool (value : Value) : Bool := sameName value.text trueText

/-- The number of 64 bits at the start of a value. -/
def toDouble (value : Value) : Binary .double := leadingDouble value.text.toList

/-- The number of 32 bits nearest to the one of 64 bits at the start of a value. -/
def toSingle (value : Value) : Binary .single := value.toDouble.convert .single

/-- A whole number as a value. -/
def ofInt (number : Int) : Value := ⟨intText number⟩

/-- A truth value as a value. -/
def ofBool (truth : Bool) : Value := ⟨if truth then trueText else falseText⟩

/-- A number of 64 bits as the shortest value that reads back. -/
def ofDouble (number : Binary .double) : Value := ⟨exactText number⟩

/-- A number of 32 bits as a value of six significant digits. -/
def ofSingle (number : Binary .single) : Value := ⟨generalText (number.convert .double)⟩

end Value

end ConfigStore
