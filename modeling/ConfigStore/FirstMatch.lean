/-! Lists in which the first element that passes a test stands for the rest. -/

namespace ConfigStore

/-- Changes the first element that a test accepts, or adds a new one behind the last. -/
def upsert {α : Type} (here : α → Bool) (change : α → α) (fresh : α) : List α → List α
  | [] => [fresh]
  | item :: rest => if here item then change item :: rest else item :: upsert here change fresh rest

/-- Changes the first element that a test accepts. -/
def changeFirst {α : Type} (here : α → Bool) (change : α → α) : List α → List α
  | [] => []
  | item :: rest => if here item then change item :: rest else item :: changeFirst here change rest

end ConfigStore
