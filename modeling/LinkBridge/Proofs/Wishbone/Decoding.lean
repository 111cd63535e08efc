import LinkBridge.Proofs.Wishbone.Recent

/-!
# LinkBridge.Proofs.Wishbone.Decoding

Addresses and devices. A device takes the words written to its range and no others
(`Device.storeAll`). Where no two devices share an address, this alone says what becomes of a bus:
words are stored device by device (`write_spec`), a block goes where its words would go one by one
(`writeBlock_spec`), and an address is answered by the one device that covers it (`read_spec`).
Neither the device that answered last nor the way a block is handed on can be noticed.

Main statement: `decoding_ignores_history`.
-/

namespace LinkBridge.Wishbone

/-! ## one device -/

namespace Device

/-- Stores a word written to an address, if the address is in the range of the device. -/
def store (address : Nat) (w : Word) (d : Device) : Device :=
  if d.covers address then d.write (address - d.base) w else d

/-- Stores those of consecutive words whose addresses are in the range of the device. -/
def storeAll (address : Nat) : List Word → Device → Device
  | [], d => d
  | w :: ws, d => storeAll (address + 4) ws (d.store address w)

theorem Disjoint.symm {d e : Device} (h : d.Disjoint e) : e.Disjoint d := by
  intro address he
  cases hd : d.covers address with
  | false => rfl
  | true => exact absurd (h address hd) (by simp [he])

@[simp] theorem base_blank (d : Device) : d.blank.base = d.base := by
  cases d <;> rfl

@[simp] theorem base_write (d : Device) (offset : Nat) (w : Word) :
    (d.write offset w).base = d.base := by
  rw [← base_blank, blank_write, base_blank]

@[simp] theorem covers_write (d : Device) (offset : Nat) (w : Word) (address : Nat) :
    (d.write offset w).covers address = d.covers address := by
  rw [← covers_blank, blank_write, covers_blank]

@[simp] theorem blank_store (address : Nat) (w : Word) (d : Device) :
    (d.store address w).blank = d.blank := by
  unfold store
  split <;> simp

@[simp] theorem blank_storeAll (address : Nat) (ws : List Word) (d : Device) :
    (d.storeAll address ws).blank = d.blank := by
  induction ws generalizing address d with
  | nil => rfl
  | cons w ws ih => simp [storeAll, ih]

theorem base_le_of_covers {d : Device} {address : Nat} (h : d.covers address = true) :
    d.base ≤ address := by
  simp only [covers, Bool.and_eq_true, decide_eq_true_eq] at h
  exact h.1

@[simp] theorem writeBlock_nil (d : Device) (offset : Nat) : d.writeBlock offset [] = d := by
  cases d <;> simp [writeBlock, Sram.writeBlock, Msi.writeBlock, Memory.writeRun]

/-- A block is written word by word. -/
theorem writeBlock_cons (d : Device) (offset : Nat) (w : Word) (ws : List Word) :
    d.writeBlock offset (w :: ws) = (d.write offset w).writeBlock (offset + 4) ws := by
  cases d with
  | sram s => exact congrArg sram (s.writeBlock_cons offset w ws)
  | msi m => rfl

/-- Words that all fall into the range are written as a block. -/
theorem storeAll_of_covers {d : Device} {address : Nat} {ws : List Word}
    (h : ∀ k < ws.length, d.covers (address + 4 * k) = true) :
    d.storeAll address ws = d.writeBlock (address - d.base) ws := by
  induction ws generalizing address d with
  | nil => simp [storeAll]
  | cons w ws ih =>
      have hhead : d.covers address = true := h 0 (Nat.zero_lt_succ _)
      have hbase := base_le_of_covers hhead
      have hoffset : address - d.base + 4 = address + 4 - d.base := by omega
      have hrest : ∀ k < ws.length,
          (d.write (address - d.base) w).covers (address + 4 + 4 * k) = true := by
        intro k hk
        rw [covers_write, Nat.add_assoc, Nat.add_comm 4, ← Nat.mul_succ]
        exact h (k + 1) (Nat.succ_lt_succ hk)
      rw [storeAll, store, if_pos hhead, ih hrest, base_write, writeBlock_cons, hoffset]

/-- Words that all miss the range change nothing. -/
theorem storeAll_of_misses {d : Device} {address : Nat} {ws : List Word}
    (h : ∀ k < ws.length, d.covers (address + 4 * k) = false) : d.storeAll address ws = d := by
  induction ws generalizing address with
  | nil => rfl
  | cons w ws ih =>
      have hhead : d.covers address = false := h 0 (Nat.zero_lt_succ _)
      have hstore : d.store address w = d := by simp [store, hhead]
      have hrest : ∀ k < ws.length, d.covers (address + 4 + 4 * k) = false := by
        intro k hk
        rw [Nat.add_assoc, Nat.add_comm 4, ← Nat.mul_succ]
        exact h (k + 1) (Nat.succ_lt_succ hk)
      rw [storeAll, hstore, ih hrest]

/-- A block within the range of a device has all of its words there. -/
theorem covers_of_fits {d : Device} {address n : Nat} (hcovers : d.covers address = true)
    (hfits : address - d.base + 4 * n ≤ d.size) :
    ∀ k < n, d.covers (address + 4 * k) = true := by
  intro k hk
  have hbase := base_le_of_covers hcovers
  simp only [covers, Bool.and_eq_true, decide_eq_true_eq]
  omega

end Device

/-! ## many devices -/

/-- Whether some device covers an address. -/
def isMapped (ds : List Device) (address : Nat) : Bool :=
  ds.any (·.covers address)

/-- The word at an address, if some device covers it. -/
def fetch (ds : List Device) (address : Nat) : Option Word :=
  (ds.find? (·.covers address)).map fun d => d.read (address - d.base)

/-- The addresses of consecutive words. -/
def wordAddresses (address count : Nat) : List Nat :=
  (List.range count).map (address + 4 * ·)

theorem wordAddresses_succ (address count : Nat) :
    wordAddresses address (count + 1) = address :: wordAddresses (address + 4) count := by
  simp only [wordAddresses, List.range_succ_eq_map, List.map_cons, List.map_map, Nat.mul_zero,
    Nat.add_zero, List.cons.injEq, true_and]
  refine List.map_congr_left fun k _ => ?_
  simp only [Function.comp_apply]
  omega

/-- Whatever is stored, the same addresses are covered. -/
theorem isMapped_map {f : Device → Device} (hf : ∀ d, (f d).blank = d.blank) (ds : List Device)
    (address : Nat) : isMapped (ds.map f) address = isMapped ds address := by
  have hcovers (d : Device) : (f d).covers address = d.covers address := by
    rw [← Device.covers_blank, hf, Device.covers_blank]
  simp [isMapped, List.any_map, Function.comp_def, hcovers]

section

variable {ds : List Device}

/-- Next to a device that covers an address no other does. -/
theorem covers_eq_false_of_ne (h : ds.Pairwise Device.Disjoint) {i j : Nat} (hi : i < ds.length)
    (hj : j < ds.length) (hne : j ≠ i) {address : Nat} (hcovers : ds[i].covers address = true) :
    ds[j].covers address = false := by
  rcases Nat.lt_or_gt_of_ne hne with hlt | hlt
  · exact (List.pairwise_iff_getElem.mp h j i hj hi hlt).symm address hcovers
  · exact List.pairwise_iff_getElem.mp h i j hi hj hlt address hcovers

/-- Only one device covers an address. -/
theorem filter_covers (h : ds.Pairwise Device.Disjoint) {d : Device} (hd : d ∈ ds) {address : Nat}
    (hcovers : d.covers address = true) : ds.filter (·.covers address) = [d] := by
  induction ds with
  | nil => contradiction
  | cons e ds ih =>
      rw [List.pairwise_cons] at h
      by_cases he : e.covers address = true
      · have hnone : ds.filter (·.covers address) = [] := by
          rw [List.filter_eq_nil_iff]
          intro x hx
          simp [h.1 x hx address he]
        rcases List.mem_cons.mp hd with rfl | hd
        · simp [hcovers, hnone]
        · rw [List.filter_eq_nil_iff] at hnone
          exact absurd hcovers (hnone d hd)
      · rcases List.mem_cons.mp hd with rfl | hd
        · contradiction
        · simpa [List.filter_cons, he] using ih h.2 hd

/-- The one device that covers an address answers it. -/
theorem fetch_of_covers (h : ds.Pairwise Device.Disjoint) {d : Device} (hd : d ∈ ds) {address : Nat}
    (hcovers : d.covers address = true) : fetch ds address = some (d.read (address - d.base)) := by
  rw [fetch, ← List.head?_filter, filter_covers h hd hcovers]
  rfl

/-- Changing one device is changing all of them where the others stay as they are. -/
theorem modify_eq_map {i : Nat} (hi : i < ds.length) {f g : Device → Device}
    (hsame : f ds[i] = g ds[i]) (hothers : ∀ j (hj : j < ds.length), j ≠ i → g ds[j] = ds[j]) :
    ds.modify i f = ds.map g := by
  refine List.ext_getElem (by simp) fun j hj _ => ?_
  rw [List.length_modify] at hj
  rw [List.getElem_modify, List.getElem_map]
  by_cases hij : i = j
  · subst hij
    rw [if_pos rfl, hsame]
  · rw [if_neg hij, hothers j hj (Ne.symm hij)]

end

/-! ## accesses to a bus -/

namespace Bus

section

variable {b : Bus}

theorem Apart.of_blank (h : b.Apart) {b' : Bus} (hblank : b'.blank = b.blank) : b'.Apart :=
  b'.apart_iff_blank.mpr (hblank ▸ b.apart_iff_blank.mp h)

/-- The device that is found is the first that covers the address. -/
theorem exists_of_locate (h : b.Apart) {address i : Nat} (hlocate : b.locate address = some i) :
    ∃ hi : i < b.devices.length, b.devices[i].covers address = true := by
  rw [locate_eq h] at hlocate
  obtain ⟨hi, hcovers, -⟩ := List.findIdx?_eq_some_iff_getElem.mp hlocate
  exact ⟨hi, hcovers⟩

theorem forall_of_locate (h : b.Apart) {address : Nat} (hlocate : b.locate address = none) :
    ∀ d ∈ b.devices, d.covers address = false := by
  rw [locate_eq h] at hlocate
  exact List.findIdx?_eq_none_iff.mp hlocate

/-- **A word is read from the device that covers its address.** -/
theorem read_spec (h : b.Apart) (address : Nat) :
    (b.read address).1 = fetch b.devices address ∧ (b.read address).2.devices = b.devices := by
  unfold read fetch
  rw [locate_eq h, List.find?_eq_bind_findIdx?_getElem?]
  cases b.devices.findIdx? (·.covers address) with
  | none => exact ⟨rfl, rfl⟩
  | some i => exact ⟨rfl, rfl⟩

/-- **A word is written to the device that covers its address.** -/
theorem write_spec (h : b.Apart) (address : Nat) (w : Word) :
    (b.write address w).1 = isMapped b.devices address ∧
      (b.write address w).2.devices = b.devices.map (Device.store address w) := by
  unfold write isMapped
  cases hlocate : b.locate address with
  | none =>
      have hnone := forall_of_locate h hlocate
      refine ⟨by simpa using hnone, ?_⟩
      have hstore : ∀ d ∈ b.devices, d.store address w = d := by
        intro d hd
        simp [Device.store, hnone d hd]
      rw [List.map_congr_left hstore, List.map_id']
  | some i =>
      obtain ⟨hi, hcovers⟩ := exists_of_locate h hlocate
      refine ⟨?_, modify_eq_map hi ?_ fun j hj hne => ?_⟩
      · exact (List.any_eq_true.mpr ⟨_, List.getElem_mem hi, hcovers⟩).symm
      · simp [Device.store, hcovers]
      · simp [Device.store, covers_eq_false_of_ne h hi hj hne hcovers]

/-- **Words that are written one by one go to the devices that cover their addresses.** -/
theorem writeEach_spec (h : b.Apart) (address : Nat) (ws : List Word) :
    (b.writeEach address ws).1 =
        (wordAddresses address ws.length).countP (fun a => !isMapped b.devices a) ∧
      (b.writeEach address ws).2.devices = b.devices.map (Device.storeAll address ws) := by
  induction ws generalizing b address with
  | nil => exact ⟨rfl, (List.map_id' b.devices).symm⟩
  | cons w ws ih =>
      obtain ⟨hhit, hdevices⟩ := write_spec h address w
      obtain ⟨hmissed, hrest⟩ := ih (h.of_blank (b.blank_write address w)) (address + 4)
      have hsame (a : Nat) : isMapped (b.write address w).2.devices a = isMapped b.devices a := by
        rw [hdevices, isMapped_map (Device.blank_store address w)]
      constructor
      · simp only [writeEach, hmissed, hhit, hsame, List.length_cons, wordAddresses_succ,
          List.countP_cons]
        cases isMapped b.devices address <;> rfl
      · have hsplit : (b.writeEach address (w :: ws)).2 =
            ((b.write address w).2.writeEach (address + 4) ws).2 := rfl
        rw [hsplit, hrest, hdevices, List.map_map]
        rfl

/-- **A block goes where its words would go one by one.** -/
theorem writeBlock_spec (h : b.Apart) (address : Nat) (ws : List Word) :
    (b.writeBlock address ws).1 =
        (wordAddresses address ws.length).countP (fun a => !isMapped b.devices a) ∧
      (b.writeBlock address ws).2.devices = b.devices.map (Device.storeAll address ws) := by
  unfold writeBlock
  cases hlocate : b.locate address with
  | none => exact writeEach_spec h address ws
  | some i =>
      obtain ⟨hi, hcovers⟩ := exists_of_locate h hlocate
      simp only [List.getElem?_eq_getElem hi, Option.any_some, decide_eq_true_eq]
      split
      · next hfits =>
        have hinside := Device.covers_of_fits hcovers hfits
        constructor
        · refine (List.countP_eq_zero.mpr fun a ha => ?_).symm
          obtain ⟨k, hk, rfl⟩ := List.mem_map.mp ha
          have hmapped : isMapped b.devices (address + 4 * k) = true :=
            List.any_eq_true.mpr ⟨_, List.getElem_mem hi, hinside k (List.mem_range.mp hk)⟩
          simp [hmapped]
        · refine modify_eq_map hi (Device.storeAll_of_covers hinside).symm fun j hj hne => ?_
          exact Device.storeAll_of_misses fun k hk =>
            covers_eq_false_of_ne h hi hj hne (hinside k hk)
      · exact writeEach_spec (b := b.touch i) h address ws

end

end Bus

/-! ## histories -/

/-- An access to a bus. -/
inductive Access where
  | read (address : Nat)
  | write (address : Nat) (w : Word)
  | writeBlock (address : Nat) (ws : List Word)

/-- What an access does to a device. -/
def Access.effect : Access → Device → Device
  | .read _ => id
  | .write address w => Device.store address w
  | .writeBlock address ws => Device.storeAll address ws

@[simp] theorem Access.blank_effect (a : Access) (d : Device) : (a.effect d).blank = d.blank := by
  cases a <;> simp [effect]

/-- A device behind accesses to its bus. -/
def Device.behind (accesses : List Access) (d : Device) : Device :=
  accesses.foldl (fun d a => a.effect d) d

namespace Bus

/-- Performs an access. -/
def access (b : Bus) : Access → Bus
  | .read address => (b.read address).2
  | .write address w => (b.write address w).2
  | .writeBlock address ws => (b.writeBlock address ws).2

/-- Performs accesses in order. -/
def accesses (b : Bus) (history : List Access) : Bus :=
  history.foldl access b

theorem blank_access (b : Bus) (a : Access) : (b.access a).blank = b.blank := by
  cases a <;> simp [access]

theorem devices_access {b : Bus} (h : b.Apart) (a : Access) :
    (b.access a).devices = b.devices.map a.effect := by
  cases a with
  | read address => simpa [access, Access.effect] using (read_spec h address).2
  | write address w => exact (write_spec h address w).2
  | writeBlock address ws => exact (writeBlock_spec h address ws).2

/-- **Behind any accesses every device stands where those to its range leave it.** -/
theorem accesses_spec {b : Bus} (h : b.Apart) (history : List Access) :
    (b.accesses history).Apart ∧
      (b.accesses history).devices = b.devices.map (Device.behind history) := by
  induction history generalizing b with
  | nil => exact ⟨h, (List.map_id' b.devices).symm⟩
  | cons a history ih =>
      obtain ⟨hapart, hdevices⟩ := ih (h.of_blank (b.blank_access a))
      refine ⟨hapart, ?_⟩
      rw [devices_access h a, List.map_map] at hdevices
      exact hdevices

/-! ## attaching devices -/

theorem insertByBase_perm (d : Device) (ds : List Device) : (insertByBase d ds).Perm (d :: ds) := by
  induction ds with
  | nil => exact List.Perm.refl [d]
  | cons e ds ih =>
      rw [insertByBase]
      split
      · exact List.Perm.refl _
      · exact (ih.cons e).trans (List.Perm.swap d e ds)

/-- A bus has the devices that were attached to it. -/
theorem ofDevices_perm (ds : List Device) : (ofDevices ds).devices.Perm ds := by
  have hadd (b : Bus) : (ds.foldl add b).devices.Perm (ds ++ b.devices) := by
    induction ds generalizing b with
    | nil => exact List.Perm.refl b.devices
    | cons d ds ih =>
        refine (ih (b.add d)).trans ?_
        exact ((insertByBase_perm d b.devices).append_left ds).trans List.perm_middle
  simpa [ofDevices] using hadd {}

/-- The order in which devices are attached does not matter. -/
theorem apart_ofDevices {ds : List Device} (h : ds.Pairwise Device.Disjoint) :
    (ofDevices ds).Apart :=
  (ofDevices_perm ds).symm.pairwise h fun hdisjoint => hdisjoint.symm

/-- **Block writes and the device that answered last cannot be noticed.** On a bus whose devices
share no address, whatever was accessed before: the devices are those attached, as the accesses to
their ranges left them; a block write leaves every device as word by word writes would and misses as
many words; and an access reaches the one device whose range contains the address, at its offset
there, and none where there is none. -/
theorem decoding_ignores_history {ds : List Device} (hds : ds.Pairwise Device.Disjoint)
    (history : List Access) :
    let b := (ofDevices ds).accesses history
    b.devices.Perm (ds.map (Device.behind history)) ∧
      (∀ address ws, (b.writeBlock address ws).1 = (b.writeEach address ws).1 ∧
        (b.writeBlock address ws).2.devices = (b.writeEach address ws).2.devices) ∧
      (∀ address d, d ∈ b.devices → d.covers address = true →
        b.devices.filter (·.covers address) = [d] ∧
          (b.read address).1 = some (d.read (address - d.base)) ∧
          (b.read address).2.devices = b.devices ∧
          ∀ w, (b.write address w).1 = true ∧
            (b.write address w).2.devices = b.devices.map fun e =>
              if e.covers address then e.write (address - e.base) w else e) ∧
      ∀ address, (∀ d ∈ b.devices, d.covers address = false) →
        (b.read address).1 = none ∧ (b.read address).2.devices = b.devices ∧
          ∀ w, (b.write address w).1 = false ∧ (b.write address w).2.devices = b.devices := by
  intro b
  obtain ⟨hb, hdevices⟩ := accesses_spec (apart_ofDevices hds) history
  refine ⟨?_, fun address ws => ?_, fun address d hd hcovers => ?_, fun address hnone => ?_⟩
  · rw [hdevices]
    exact (ofDevices_perm ds).map _
  · obtain ⟨hblock, hblock'⟩ := writeBlock_spec hb address ws
    obtain ⟨heach, heach'⟩ := writeEach_spec hb address ws
    exact ⟨hblock.trans heach.symm, hblock'.trans heach'.symm⟩
  · obtain ⟨hread, hsame⟩ := read_spec hb address
    refine ⟨filter_covers hb hd hcovers, hread.trans (fetch_of_covers hb hd hcovers), hsame,
      fun w => ?_⟩
    obtain ⟨hhit, hwritten⟩ := write_spec hb address w
    exact ⟨hhit.trans (List.any_eq_true.mpr ⟨d, hd, hcovers⟩), hwritten⟩
  · obtain ⟨hread, hsame⟩ := read_spec hb address
    have hfetch : fetch b.devices address = none := by
      simpa [fetch, List.find?_eq_none] using hnone
    refine ⟨hread.trans hfetch, hsame, fun w => ?_⟩
    obtain ⟨hhit, hwritten⟩ := write_spec hb address w
    have hmiss : isMapped b.devices address = false := by simpa [isMapped] using hnone
    have hstore : ∀ d ∈ b.devices, d.store address w = d := by
      intro d hd
      simp [Device.store, hnone d hd]
    rw [List.map_congr_left hstore, List.map_id'] at hwritten
    exact ⟨hhit.trans hmiss, hwritten⟩

/-- A block that begins in the last word of a memory of 16 bytes and runs into the interrupt
controller behind it, which was attached first. -/
theorem decoding_ignores_history_across :
    let ds : List Device := [.msi { base := 0x1010 }, .sram (.ofSize 0x1000 16)]
    let history : List Access := [.read 0x1010, .writeBlock 0x100C [7, 1, 0, 0x33], .read 0x1000]
    let b := (ofDevices ds).accesses history
    ds.Pairwise Device.Disjoint ∧
      (b.read 0x1018).1 = some 0x33 ∧
      (b.writeBlock 0x1008 [5, 6, 7, 8]).1 = (b.writeEach 0x1008 [5, 6, 7, 8]).1 ∧
      (b.writeBlock 0x1008 [5, 6, 7, 8]).2.devices =
        (b.writeEach 0x1008 [5, 6, 7, 8]).2.devices := by
  intro ds history
  have hds : ds.Pairwise Device.Disjoint := by
    have hdisjoint : Device.Disjoint (.sram (.ofSize 0x1000 16)) (.msi { base := 0x1010 }) :=
      Device.disjoint_of_le (by decide)
    simpa [ds] using hdisjoint.symm
  let m : Msi := { base := 0x1010, sending := true, vector := 0x33 }
  have hbehind : Device.behind history (.msi { base := 0x1010 }) = .msi m := rfl
  have hread : m.read (0x1018 - m.base) = 0x33 := by decide
  obtain ⟨hdevices, hblock, hmapped, -⟩ := decoding_ignores_history hds history
  -- From here on it does not matter how the bus came to be.
  generalize (ofDevices ds).accesses history = b at hdevices hblock hmapped ⊢
  have hmsi : .msi m ∈ b.devices :=
    hdevices.mem_iff.mpr (List.mem_map.mpr ⟨_, List.mem_cons_self, hbehind⟩)
  exact ⟨hds, (hmapped 0x1018 _ hmsi (by decide)).2.1.trans (congrArg some hread),
    hblock 0x1008 [5, 6, 7, 8]⟩

end Bus

end LinkBridge.Wishbone
