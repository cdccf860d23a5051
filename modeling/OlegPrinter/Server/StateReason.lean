/-
  `getStateReason`: from the text of `printer-state-reasons` to a code of
  `printer_state_reason_t`, by a chain of fifteen `strcmp`. The chain has no final
  `else`, so a text that is none of the literals returns the local variable as it was
  found on the stack.

  The eleventh literal is `marker-needed`, as in the source.
-/
import OlegPrinter.PrinterState

namespace OlegPrinter

open CLib

/-- The literals of the chain, in its order, with the value each one assigns. -/
def stateReasonLiterals : List (List UInt8 × PrinterStateReason) :=
  [ (ascii "connecting-to-device", .connectingToDevice),
    (ascii "cover-open", .coverOpen),
    (ascii "input-tray-missing", .inputTrayMissing),
    (ascii "marker-supply-empty", .markerSupplyEmpty),
    (ascii "marker-supply-low", .markerSupplyLow),
    (ascii "marker-waste-almost-full", .markerWasteAlmostFull),
    (ascii "marker-waste-full", .markerWasteFull),
    (ascii "media-empty", .mediaEmpty),
    (ascii "media-jam", .mediaJam),
    (ascii "media-low", .mediaLow),
    (ascii "marker-needed", .mediaNeeded),
    (ascii "paused", .paused),
    (ascii "timed-out", .timedOut),
    (ascii "toner-empty", .tonerEmpty),
    (ascii "toner-low", .tonerLow) ]

/-- `getStateReason(state_reasons_str)`; `slot` is what the uninitialised
    `state_reason_value` holds on entry. -/
def getStateReason (slot : Int) (stateReasonsStr : List UInt8) : Int :=
  match stateReasonLiterals.find? fun p => strcmp stateReasonsStr p.1 = 0 with
  | some p => p.2.code
  | none => slot

/-- The text is one of the fifteen literals. -/
def Recognised (s : CStr) : Prop := ∃ p ∈ stateReasonLiterals, s.bytes = p.1

instance (s : CStr) : Decidable (Recognised s) :=
  inferInstanceAs (Decidable (∃ p ∈ stateReasonLiterals, s.bytes = p.1))

theorem zero_notMem_literal : ∀ p ∈ stateReasonLiterals, (0 : UInt8) ∉ p.1 := by decide +kernel

theorem strcmp_literal_iff (s : CStr) {p : List UInt8 × PrinterStateReason}
    (hp : p ∈ stateReasonLiterals) : strcmp s.bytes p.1 = 0 ↔ s.bytes = p.1 := by
  rw [strcmp_eq_zero_iff, cstr_eq_self s.noNul, cstr_eq_self (zero_notMem_literal p hp)]

/-- No two literals are the same. -/
theorem literal_unique :
    ∀ p ∈ stateReasonLiterals, ∀ q ∈ stateReasonLiterals, p.1 = q.1 → p = q := by
  decide +kernel

/-- A literal gives the code of its reason, whatever the stack held. -/
theorem getStateReason_literal {s : CStr} {p : List UInt8 × PrinterStateReason}
    (hp : p ∈ stateReasonLiterals) (hs : s.bytes = p.1) (slot : Int) :
    getStateReason slot s.bytes = p.2.code := by
  have hfind : (stateReasonLiterals.find? fun p => strcmp s.bytes p.1 = 0).isSome := by
    rw [List.find?_isSome]
    exact ⟨p, hp, by simpa using (strcmp_literal_iff s hp).mpr hs⟩
  obtain ⟨q, hq⟩ := Option.isSome_iff_exists.mp hfind
  have hqmem := List.mem_of_find?_eq_some hq
  have hqs : s.bytes = q.1 := (strcmp_literal_iff s hqmem).mp (by simpa using List.find?_some hq)
  obtain rfl := literal_unique p hp q hqmem (hs.symm.trans hqs)
  simp only [getStateReason, hq]

theorem getStateReason_recognised {s : CStr} (h : Recognised s) :
    ∃ r : PrinterStateReason, ∀ slot, getStateReason slot s.bytes = r.code := by
  obtain ⟨p, hp, hs⟩ := h
  exact ⟨p.2, getStateReason_literal hp hs⟩

/-- Any other text gives what the stack held. -/
theorem getStateReason_unrecognised {s : CStr} (h : ¬ Recognised s) (slot : Int) :
    getStateReason slot s.bytes = slot := by
  have hfind : (stateReasonLiterals.find? fun p => strcmp s.bytes p.1 = 0) = none := by
    rw [List.find?_eq_none]
    intro p hp hs
    exact h ⟨p, hp, (strcmp_literal_iff s hp).mp (by simpa using hs)⟩
  simp only [getStateReason, hfind]

end OlegPrinter
