import DeclOrder.Proofs.Truncation

/-! Where findings without a location, or without a line, stand among the others. They are sorted by a path and a
line that other findings can have, so they come last only behind those that lie below these two. -/
namespace DeclOrder.Evaluation

def located (location : Option Location) : Finding :=
  ⟨.notice, "order", "unsorted", "message", location, none, none, none, .null⟩

end DeclOrder.Evaluation
