namespace Coap

/-- Sixteen words in four rows and four columns. -/
abbrev Square (α : Type) := Vector α 16

namespace Square

variable {α : Type}

/-- Changes one word. -/
def put (v : Square α) (i : Fin 16) (x : α) : Square α := v.set i x

def place (row column : Fin 4) : Fin 16 := ⟨4 * row.val + column.val, by omega⟩

/-- Mixes the four columns, one after the other, and then the four diagonals. -/
def mixAll (mix : Fin 8 → Square α → Fin 16 → Fin 16 → Fin 16 → Fin 16 → Square α)
    (v : Square α) : Square α :=
  let lane (i : Fin 8) (v : Square α) (start shift : Fin 4) : Square α :=
    mix i v (place 0 start) (place 1 (start + shift)) (place 2 (start + 2 * shift))
      (place 3 (start + 3 * shift))
  let v := lane 0 v 0 0
  let v := lane 1 v 1 0
  let v := lane 2 v 2 0
  let v := lane 3 v 3 0
  let v := lane 4 v 0 1
  let v := lane 5 v 1 1
  let v := lane 6 v 2 1
  lane 7 v 3 1

end Square

end Coap
