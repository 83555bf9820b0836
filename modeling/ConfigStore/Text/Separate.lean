/-! Texts are taken apart at a mark. -/

namespace ConfigStore

/-- The pieces between the marks in a text, one more than there are marks. -/
def separate {α : Type} [BEq α] (mark : α) (text : List α) : List (List α) :=
  text.foldr
    (fun item pieces =>
      if item == mark then [] :: pieces
      else match pieces with
        | [] => [[item]]
        | piece :: rest => (item :: piece) :: rest)
    [[]]

end ConfigStore
