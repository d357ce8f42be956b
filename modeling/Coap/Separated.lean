namespace Coap.Separated

variable {α : Type} [BEq α]

/-- The runs between separators, empty ones included. -/
def pieces (sep : α) : List α → List (List α)
  | [] => [[]]
  | a :: rest =>
    if a == sep then [] :: pieces sep rest
    else match pieces sep rest with
      | [] => [[a]]
      | piece :: more => (a :: piece) :: more

/-- A list without its leading separators and without one trailing separator. -/
def trim (sep : α) (list : List α) : List α :=
  let tail := list.dropWhile (· == sep)
  if tail.getLast?.any (· == sep) then tail.dropLast else tail

/-- The pieces of a trimmed list; a list of separators only has none. -/
def trimmedPieces (sep : α) (list : List α) : List (List α) :=
  match trim sep list with
  | [] => []
  | a :: rest => pieces sep (a :: rest)

end Coap.Separated
