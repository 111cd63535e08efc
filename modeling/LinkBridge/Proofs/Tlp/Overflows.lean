import LinkBridge.Proofs.Stream.Blocks
import LinkBridge.Proofs.Tlp.Serializer

/-!
# LinkBridge.Proofs.Tlp.Overflows

The TLPs a serializer gives up. Every TLP that comes to an end leaves as a packet, is stored whole or
is given up, so those that are to be given up can be told from what comes and what leaves
(`overflowsDue`); each of them is counted on the tick that gives it up (`overflowsDue_tick`). A
serializer with nothing under way gives up the TLPs that do not fit (`overflowsDue_tlps`).
-/

namespace LinkBridge.Tlp.Serializer

/-! ## TLPs that are not sent -/

/-- The TLPs a serializer has stored whole, less one whose end it will skip. -/
def stored (s : Serializer) : Int :=
  s.complete - s.skipping.toNat

/-- The TLPs a serializer will give up if `beats` are to come: those that come to an end and do not
leave as a packet. -/
def overflowsDue (s : Serializer) (beats : List Beat) : Int :=
  s.stored + beats.countP (·.last) - (s.future beats).countP (·.last)

section

variable {s : Serializer}

/-- A packet that is sent was stored. -/
theorem send_stored (h : Sound s) (ready : Bool) :
    (s.send ready).counted.tlpOverflows = 0 ∧
      (s.send ready).next.stored + (s.send ready).sent.toList.countP (·.last) = s.stored := by
  have hstored : s.start.stored = s.stored := by
    unfold start
    repeat' split
    all_goals rfl
  rw [← hstored]
  simp only [send]
  split
  · next length sent high b rest hphase hbuffer =>
    have hwhole : 0 < s.start.complete :=
      ((start_keeps h).sound.sending length sent high hphase).1
    cases ready with
    | false => exact ⟨rfl, Int.add_zero _⟩
    | true =>
        simp only [if_true]
        cases hlast : sent + 1 == length with
        | false =>
            rw [if_neg Bool.false_ne_true]
            refine ⟨rfl, ?_⟩
            cases high || !b.hasHigh <;> simp [stored]
        | true =>
            refine ⟨rfl, ?_⟩
            cases high || !b.hasHigh <;> simp [stored] <;> omega
  · exact ⟨rfl, Int.add_zero _⟩

/-- What is given up is counted. -/
theorem store_stored (s : Serializer) (input : Option Beat) (xs : List Beat) :
    ((s.store input).counted.tlpOverflows : Int) + (s.store input).next.stored +
        ((s.store input).left input ++ xs).countP (·.last) =
      s.stored + (input.toList ++ xs).countP (·.last) := by
  rw [store.eq_def]
  cases hskipping : s.skipping with
  | true =>
      cases input with
      | none => simp [Transfer.left]
      | some beat =>
          cases hlast : beat.last <;>
            simp only [stored, hskipping, hlast, Transfer.left, if_true, Bool.not_true,
              Bool.not_false, Bool.toNat_true, Bool.toNat_false, Bool.false_eq_true, if_false,
              Option.toList_some, List.nil_append, List.cons_append, List.countP_cons] <;>
            omega
  | false =>
      rw [if_neg Bool.false_ne_true]
      split
      · simp only [stored, hskipping, Transfer.left, Bool.toNat_false, Bool.toNat_true,
          if_neg Bool.false_ne_true]
        omega
      · cases input with
        | none => simp [Transfer.left]
        | some beat =>
            simp only
            split
            · cases hlast : beat.last <;> simp [stored, hskipping, hlast, Transfer.left]
              omega
            · simp [Transfer.left]

/-- **Every TLP is sent or counted as given up.** -/
theorem overflowsDue_tick {input : Option Beat} {beats : List Beat}
    (h : Measured s (input.toList ++ beats)) (ready : Bool) (xs : List Beat) :
    let t := s.tick input ready
    (t.counted.tlpOverflows : Int) + t.next.overflowsDue (t.left input ++ xs) =
      s.overflowsDue (input.toList ++ xs) := by
  intro t
  obtain ⟨hcounted, hsent⟩ := send_stored h.toSound ready
  have hstored := store_stored (s.send ready).next input xs
  have hfuture : t.sent.toList.countP (·.last) +
      (t.next.future (t.left input ++ xs)).countP (·.last) =
        (s.future (input.toList ++ xs)).countP (·.last) := by
    rw [← List.countP_append, (tick_conserves h ready).2.future xs]
  have hcount : t.counted.tlpOverflows = ((s.send ready).next.store input).counted.tlpOverflows := by
    show (s.send ready).counted.tlpOverflows + _ = _
    rw [hcounted, Nat.zero_add]
  rw [hcount, overflowsDue, overflowsDue, ← hfuture, ← hsent]
  show _ + (((s.send ready).next.store input).next.stored + _ - _) = _
  have hleft : t.left input = ((s.send ready).next.store input).left input := rfl
  have hword : t.sent = (s.send ready).sent := rfl
  rw [hleft, hword]
  omega

end

/-- **A serializer with nothing under way gives up the TLPs that do not fit.** -/
theorem overflowsDue_tlps {s : Serializer} (h : Sound s) (hidle : s.isIdle = true)
    {tlps : List (List Word)} (hne : ∀ ws ∈ tlps, ws ≠ []) :
    s.overflowsDue (tlps.flatMap Beat.ofDwords) =
      tlps.countP fun ws => !decide ((Beat.ofDwords ws).length ≤ s.depth) := by
  have hstored : s.stored = 0 := by
    have hcomplete := h.complete
    simp only [isIdle, Bool.and_eq_true, decide_eq_true_eq, List.isEmpty_iff,
      Bool.not_eq_true'] at hidle
    obtain ⟨⟨-, hbuffer⟩, hskipping⟩ := hidle
    rw [hbuffer, List.countP_nil, Nat.le_zero] at hcomplete
    rw [stored, hcomplete, hskipping]
    rfl
  have hcame : (tlps.flatMap Beat.ofDwords).countP (·.last) = tlps.length :=
    countP_flatMap_eq fun ws hws => countP_last_whole (Beat.whole_ofDwords (hne ws hws))
  have hleft : (s.future (tlps.flatMap Beat.ofDwords)).countP (·.last) =
      (tlps.filter fun ws => decide ((Beat.ofDwords ws).length ≤ s.depth)).length := by
    rw [future_of_isIdle hidle, packing_tlps s.tag h.depth hne]
    exact countP_flatMap_eq fun ws hws =>
      Packet.countP_last_beatsOf s.tag _ (hne ws (List.mem_filter.mp hws).1)
  have hsplit := List.length_eq_countP_add_countP
    (fun ws => decide ((Beat.ofDwords ws).length ≤ s.depth)) (l := tlps)
  simp only [decide_not, Bool.decide_eq_true] at hsplit
  rw [overflowsDue, hstored, hcame, hleft, ← List.countP_eq_length_filter]
  omega

end LinkBridge.Tlp.Serializer
