import Mathlib.Data.List.Induction

/-!
# LinkBridge.Proofs.Stream.Blocks

Streams in blocks. Some items of a stream end a block; the block behind the last of them may be
unfinished. Cutting a stream into its blocks loses nothing (`flatten_blocks`), and one more item
either joins the unfinished block or starts a new one (`blocks_concat_finished`,
`blocks_concat_unfinished`).
-/

namespace LinkBridge

variable {α β : Type}

/-- Puts an item in front of the first block. -/
def joinFirst (x : α) : List (List α) → List (List α)
  | [] => [[x]]
  | block :: rest => (x :: block) :: rest

/-- The blocks of a stream; only the last one may lack the item that ends it. -/
def blocks (ends : α → Bool) : List α → List (List α)
  | [] => []
  | x :: xs => if ends x then [x] :: blocks ends xs else joinFirst x (blocks ends xs)

/-- Whether no block of a stream is unfinished. -/
def finished (ends : α → Bool) (xs : List α) : Bool :=
  xs.getLast?.all ends

variable {ends : α → Bool}

@[simp] theorem blocks_nil : blocks ends [] = [] := rfl

theorem blocks_cons_end {x : α} (h : ends x = true) (xs : List α) :
    blocks ends (x :: xs) = [x] :: blocks ends xs :=
  if_pos h

theorem blocks_cons {x : α} (h : ends x = false) (xs : List α) :
    blocks ends (x :: xs) = joinFirst x (blocks ends xs) :=
  if_neg (by rw [h]; exact Bool.false_ne_true)

@[simp] theorem finished_nil : finished ends [] = true := rfl

@[simp] theorem finished_concat (xs : List α) (x : α) : finished ends (xs ++ [x]) = ends x := by
  simp [finished]

theorem finished_cons_cons (x y : α) (xs : List α) :
    finished ends (x :: y :: xs) = finished ends (y :: xs) := by
  simp [finished, List.getLast?_cons_cons]

/-! ## a stream and its blocks -/

theorem flatten_joinFirst (x : α) (bs : List (List α)) : (joinFirst x bs).flatten = x :: bs.flatten := by
  cases bs <;> rfl

/-- Cutting a stream loses nothing. -/
theorem flatten_blocks (ends : α → Bool) (xs : List α) : (blocks ends xs).flatten = xs := by
  induction xs with
  | nil => rfl
  | cons x xs ih =>
      cases h : ends x with
      | true => rw [blocks_cons_end h, List.flatten_cons, ih, List.singleton_append]
      | false => rw [blocks_cons h, flatten_joinFirst, ih]

theorem blocks_eq_nil {xs : List α} : blocks ends xs = [] ↔ xs = [] := by
  refine ⟨fun h => ?_, fun h => h ▸ rfl⟩
  rw [← flatten_blocks ends xs, h, List.flatten_nil]

/-- Blocks have items. -/
theorem ne_nil_of_mem_blocks {xs block : List α} (h : block ∈ blocks ends xs) : block ≠ [] := by
  induction xs generalizing block with
  | nil => simp at h
  | cons x xs ih =>
      cases hx : ends x with
      | true =>
          rw [blocks_cons_end hx, List.mem_cons] at h
          obtain rfl | h := h
          · exact List.cons_ne_nil x []
          · exact ih h
      | false =>
          rw [blocks_cons hx] at h
          cases hblocks : blocks ends xs with
          | nil => simp_all [joinFirst]
          | cons b bs =>
              rw [hblocks, joinFirst, List.mem_cons] at h
              obtain rfl | h := h
              · exact List.cons_ne_nil x b
              · exact ih (hblocks ▸ List.mem_cons_of_mem b h)

/-- An item in front joins the first block, whatever comes behind it. -/
theorem joinFirst_append (x : α) {bs : List (List α)} (h : bs ≠ []) (cs : List (List α)) :
    joinFirst x (bs ++ cs) = joinFirst x bs ++ cs := by
  cases bs with
  | nil => exact absurd rfl h
  | cons b bs => rfl

/-- **Behind a finished block a new one begins.** -/
theorem blocks_append {xs : List α} (h : finished ends xs = true) (ys : List α) :
    blocks ends (xs ++ ys) = blocks ends xs ++ blocks ends ys := by
  induction xs with
  | nil => rfl
  | cons x xs ih =>
      have htail : finished ends xs = true := by
        cases xs with
        | nil => rfl
        | cons y xs => rwa [finished_cons_cons] at h
      cases hx : ends x with
      | true => rw [List.cons_append, blocks_cons_end hx, blocks_cons_end hx, ih htail]; rfl
      | false =>
          have hne : blocks ends xs ≠ [] := by
            rw [ne_eq, blocks_eq_nil]
            rintro rfl
            simp [finished, hx] at h
          rw [List.cons_append, blocks_cons hx, blocks_cons hx, ih htail, joinFirst_append x hne]

/-- Items none of which but the last may end a block are one block. -/
theorem blocks_eq_singleton {xs : List α} (hne : xs ≠ [])
    (h : ∀ x ∈ xs.dropLast, ends x = false) : blocks ends xs = [xs] := by
  induction xs with
  | nil => exact absurd rfl hne
  | cons x xs ih =>
      cases xs with
      | nil => cases hx : ends x <;> simp [blocks, hx, joinFirst]
      | cons y ys =>
          rw [List.dropLast_cons_cons] at h
          rw [blocks_cons (h x List.mem_cons_self), ih (List.cons_ne_nil y ys)
            (fun z hz => h z (List.mem_cons_of_mem x hz))]
          rfl

/-- The last block of a stream that is not finished. -/
theorem exists_unfinished {xs : List α} (h : finished ends xs = false) :
    ∃ front block, xs = front ++ block ∧ finished ends front = true ∧ block ≠ [] ∧
      ∀ x ∈ block, ends x = false := by
  induction xs using List.reverseRecOn with
  | nil => simp at h
  | append_singleton xs x ih =>
      rw [finished_concat] at h
      cases hxs : finished ends xs with
      | true => exact ⟨xs, [x], rfl, hxs, List.cons_ne_nil x [], by simpa using h⟩
      | false =>
          obtain ⟨front, block, rfl, hfront, -, hblock⟩ := ih hxs
          refine ⟨front, block ++ [x], List.append_assoc .., hfront, by simp, fun y hy => ?_⟩
          obtain hy | hy := List.mem_append.mp hy
          · exact hblock y hy
          · rwa [List.mem_singleton.mp hy]

/-! ## one more item -/

theorem blocks_concat_finished {xs : List α} (h : finished ends xs = true) (x : α) :
    blocks ends (xs ++ [x]) = blocks ends xs ++ [[x]] := by
  rw [blocks_append h, blocks_eq_singleton (List.cons_ne_nil x []) (by simp)]

theorem blocks_concat_unfinished {xs : List α} (h : finished ends xs = false) (x : α) :
    ∃ front block, block ≠ [] ∧ blocks ends xs = front ++ [block] ∧
      blocks ends (xs ++ [x]) = front ++ [block ++ [x]] := by
  obtain ⟨front, block, rfl, hfront, hne, hblock⟩ := exists_unfinished h
  refine ⟨blocks ends front, block, hne, ?_, ?_⟩
  · rw [blocks_append hfront, blocks_eq_singleton hne
      (fun y hy => hblock y (List.dropLast_subset _ hy))]
  · have hlast : blocks ends (block ++ [x]) = [block ++ [x]] :=
      blocks_eq_singleton (by simp) (by simpa using hblock)
    rw [List.append_assoc, blocks_append hfront, hlast]

/-! ## the block in progress -/

/-- Whether a block is in progress behind a stream, given whether one was in progress before it. -/
def unfinished (ends : α → Bool) (begun : Bool) (xs : List α) : Bool :=
  xs.foldl (fun _ x => !ends x) begun

@[simp] theorem unfinished_nil (begun : Bool) : unfinished ends begun [] = begun := rfl

@[simp] theorem unfinished_cons (begun : Bool) (x : α) (xs : List α) :
    unfinished ends begun (x :: xs) = unfinished ends (!ends x) xs := rfl

@[simp] theorem unfinished_append (begun : Bool) (xs ys : List α) :
    unfinished ends begun (xs ++ ys) = unfinished ends (unfinished ends begun xs) ys :=
  List.foldl_append

/-- An item settles it, whatever was in progress before. -/
theorem unfinished_of_ne_nil {xs : List α} (h : xs ≠ []) (begun begun' : Bool) :
    unfinished ends begun xs = unfinished ends begun' xs := by
  cases xs with
  | nil => exact absurd rfl h
  | cons x xs => rfl

/-- Items that end no block leave one in progress. -/
theorem unfinished_of_countP {xs : List α} (hne : xs ≠ []) (h : xs.countP ends = 0)
    (begun : Bool) : unfinished ends begun xs = true := by
  induction xs using List.reverseRecOn with
  | nil => exact absurd rfl hne
  | append_singleton xs x ih =>
      rw [List.countP_append] at h
      have hx : ¬ ends x = true := by
        intro hx
        rw [List.countP_cons_of_pos hx] at h
        omega
      simpa using hx

/-- Streams without a block in progress are joined to one. -/
theorem unfinished_flatMap {γ : Type} {f : γ → List α} {cs : List γ}
    (h : ∀ c ∈ cs, unfinished ends false (f c) = false) :
    unfinished ends false (cs.flatMap f) = false := by
  induction cs with
  | nil => rfl
  | cons c cs ih =>
      obtain ⟨hc, hcs⟩ := List.forall_mem_cons.mp h
      rw [List.flatMap_cons, unfinished_append, hc, ih hcs]

/-! ## counting blocks -/

/-- Where each of them has one item that ends it, blocks are as many as these items. -/
theorem countP_flatMap_eq {γ : Type} {f : γ → List α} {cs : List γ}
    (h : ∀ c ∈ cs, (f c).countP ends = 1) : (cs.flatMap f).countP ends = cs.length := by
  induction cs with
  | nil => rfl
  | cons c cs ih =>
      rw [List.flatMap_cons, List.countP_append, h c List.mem_cons_self,
        ih fun d hd => h d (List.mem_cons_of_mem c hd), List.length_cons, Nat.add_comm]

/-! ## whole blocks -/

/-- Whether items are one block: the last of them ends it, and no other. -/
def IsBlock (ends : α → Bool) (block : List α) : Prop :=
  ∃ init final, block = init ++ [final] ∧ init.countP ends = 0 ∧ ends final = true

/-- **The beginning of a stream of whole blocks** is made of the blocks that have ended and the
beginning of the next one. -/
theorem exists_ended {bs : List (List α)} (h : ∀ block ∈ bs, IsBlock ends block)
    {taken rest : List α} (heq : taken ++ rest = bs.flatten) :
    ∃ done later part, bs = done ++ later ∧ taken = done.flatten ++ part ∧
      part ++ rest = later.flatten ∧ part.countP ends = 0 := by
  induction bs generalizing taken with
  | nil =>
      obtain ⟨rfl, rfl⟩ := List.append_eq_nil_iff.mp heq
      exact ⟨[], [], [], rfl, rfl, rfl, rfl⟩
  | cons block bs ih =>
      obtain ⟨hblock, hbs⟩ := List.forall_mem_cons.mp h
      rw [List.flatten_cons] at heq
      by_cases hlong : block.length ≤ taken.length
      · obtain ⟨more, rfl⟩ := List.prefix_of_prefix_length_le (List.prefix_append block _)
          (heq ▸ List.prefix_append taken rest) hlong
        rw [List.append_assoc, List.append_cancel_left_eq] at heq
        obtain ⟨done, later, part, rfl, rfl, hrest, hpart⟩ := ih hbs heq
        exact ⟨block :: done, later, part, rfl, by simp, hrest, hpart⟩
      · obtain ⟨init, final, rfl, hinit, -⟩ := hblock
        rw [List.length_append, List.length_singleton] at hlong
        rw [List.append_assoc] at heq
        have htaken : taken <+: init :=
          List.prefix_of_prefix_length_le (heq ▸ List.prefix_append taken rest)
            (List.prefix_append init _) (by omega)
        refine ⟨[], (init ++ [final]) :: bs, taken, rfl, rfl, by simpa using heq, ?_⟩
        exact Nat.le_zero.mp (hinit ▸ htaken.sublist.countP_le)

/-! ## selecting blocks -/

/-- **Selecting items selects blocks** when every block is selected as a whole. -/
theorem blocks_filter {select : α → Bool} {xs : List α}
    (h : ∀ block ∈ blocks ends xs,
      (∀ x ∈ block, select x = true) ∨ ∀ x ∈ block, select x = false) :
    blocks ends (xs.filter select) = (blocks ends xs).filter (·.all select) := by
  induction xs with
  | nil => rfl
  | cons x xs ih =>
      cases hx : ends x with
      | true =>
          rw [blocks_cons_end hx] at h ⊢
          have hrest := ih fun b hb => h b (List.mem_cons_of_mem _ hb)
          cases hselect : select x <;> simp [hselect, hrest, blocks_cons_end hx]
      | false =>
          rw [blocks_cons hx] at h ⊢
          cases hblocks : blocks ends xs with
          | nil =>
              obtain rfl := blocks_eq_nil.mp hblocks
              cases hselect : select x <;> simp [hselect, joinFirst, blocks, hx]
          | cons b bs =>
              rw [hblocks, joinFirst, List.forall_mem_cons] at h
              have hb : b ≠ [] := ne_nil_of_mem_blocks (hblocks ▸ List.mem_cons_self)
              rw [hblocks] at ih
              have hrest := ih <| List.forall_mem_cons.mpr
                ⟨h.1.imp (fun h y hy => h y (List.mem_cons_of_mem x hy))
                  (fun h y hy => h y (List.mem_cons_of_mem x hy)), h.2⟩
              obtain ⟨y, ys, rfl⟩ := List.exists_cons_of_ne_nil hb
              obtain hall | hnone := h.1
              · have hx' := hall x List.mem_cons_self
                have hys : (y :: ys).all select = true :=
                  List.all_eq_true.mpr fun z hz => hall z (List.mem_cons_of_mem x hz)
                have hxys : (x :: y :: ys).all select = true := by
                  rw [List.all_cons, hx', hys, Bool.and_self]
                rw [List.filter_cons_of_pos hx', blocks_cons hx, hrest, List.filter_cons, if_pos hys,
                  joinFirst, joinFirst, List.filter_cons, if_pos hxys]
              · have hx' := hnone x List.mem_cons_self
                have hy := hnone y (by simp)
                simp [hx', hy, hrest, joinFirst]

/-- The blocks of a stream whose items are changed. -/
theorem blocks_map (f : α → β) (ends : β → Bool) (xs : List α) :
    blocks ends (xs.map f) = (blocks (fun x => ends (f x)) xs).map (·.map f) := by
  induction xs with
  | nil => rfl
  | cons x xs ih =>
      rw [List.map_cons, blocks, blocks, ih]
      split
      · rfl
      · cases blocks (fun x => ends (f x)) xs <;> rfl

end LinkBridge
