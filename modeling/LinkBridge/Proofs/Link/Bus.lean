import LinkBridge.Link.Bus
import LinkBridge.Proofs.Losses

/-!
# LinkBridge.Proofs.Link.Bus

What the half-duplex bus does with words. Windows and turnarounds decide when a word moves, but a
word that moves is the oldest one, it goes to where there is room for it, and no other word is
touched.
-/

namespace LinkBridge.Link

namespace Host

/-- The words towards the device begin with the one it reads. -/
theorem toDevice_takeWord (h : Host) : h.toDevice = h.nextWord.toList ++ h.takeWord.toDevice := by
  unfold nextWord takeWord
  cases h.toDevice <;> rfl

/-- There is a word to read where the chip says so. -/
theorem exists_nextWord {h : Host} (hword : h.hasWord = true) : ∃ w, h.nextWord = some w := by
  cases hqueue : h.toDevice with
  | nil => simp [hasWord, hqueue] at hword
  | cons w rest => exact ⟨w, by simp [nextWord, hqueue]⟩

/-- Where there is room a word is stored behind the others. -/
theorem sentWords_putWord {h : Host} (hroom : h.hasRoom = true) (w : Word) :
    (h.putWord w).sentWords = h.sentWords ++ [w] := by
  rw [putWord, if_pos hroom]
  simp [sentWords]

theorem toDevice_putWord (h : Host) (w : Word) : (h.putWord w).toDevice = h.toDevice := by
  unfold putWord
  split <;> rfl

/-- Storing a word changes no setting. -/
theorem settings_putWord (h : Host) (w : Word) :
    (h.putWord w).capacity = h.capacity ∧ (h.putWord w).paused = h.paused := by
  unfold putWord
  split <;> exact ⟨rfl, rfl⟩

end Host

namespace Bus

variable {b : Bus} {host : Host} {word : Option Word} {room : Bool}

/-! ## where a tick leads -/

/-- A receive window ends when a word waits to be sent and either none waits to be read or the
window has expired. -/
theorem tick_receive (h : b.phase = .receive) : (b.tick host word room).next.1 =
    b.enter (if host.hasRoom && word.isSome && (!(host.hasWord && room) || b.readWindow.expired)
        then .receiveToTransmit else .receive)
      (b.dwelt (host.hasRoom && word.isSome)) := by
  simp only [tick, h]

/-- A transmit window ends when a word waits to be read and either none waits to be sent or the
window has expired. -/
theorem tick_transmit (h : b.phase = .transmit) : (b.tick host word room).next.1 =
    b.enter (if host.hasWord && room && (!(host.hasRoom && word.isSome) || b.writeWindow.expired)
        then .transmitToReceive else .transmit)
      (b.dwelt (host.hasWord && room)) := by
  simp only [tick, h]

theorem tick_receiveToTransmit (h : b.phase = .receiveToTransmit) :
    (b.tick host word room).next.1 = b.enter .transmit b.dwell := by
  simp only [tick, h]

theorem tick_transmitToReceive (h : b.phase = .transmitToReceive) :
    (b.tick host word room).next.1 = b.enter .receive b.dwell := by
  simp only [tick, h]

/-- A word is read in receive windows only. -/
theorem isSome_sent_tick : (b.tick host word room).sent.isSome =
    (decide (b.phase = .receive) && (host.hasWord && room)) := by
  cases hphase : b.phase with
  | receive =>
      by_cases hpending : (host.hasWord && room) = true
      · obtain ⟨w, hword⟩ := host.exists_nextWord (Bool.and_eq_true_iff.mp hpending).1
        simp [tick, hphase, hpending, hword]
      · simp [tick, hphase, hpending]
  | _ => simp [tick, hphase]

/-- A word is written in transmit windows only. -/
theorem taken_tick : (b.tick host word room).taken =
    (decide (b.phase = .transmit) && (host.hasRoom && word.isSome)) := by
  cases hphase : b.phase <;> simp [tick, hphase]

/-! ## what a tick moves -/

/-- What a tick does with the words of the host. -/
structure Moves (host : Host) (word : Option Word) (room : Bool) (t : Transfer (Bus × Host) Word) :
    Prop where
  /-- A word is passed on only where there is room. -/
  room : t.sent.isSome = true → room = true
  toDevice : host.toDevice = t.sent.toList ++ t.next.2.toDevice
  sentWords : t.next.2.sentWords = host.sentWords ++ if t.taken then word.toList else []
  lossless : t.counted.Lossless
  wordsIn : t.counted.linkWordsIn = t.sent.toList.length
  wordsOut : t.counted.linkWordsOut = (if t.taken then word.toList else []).length

/-- **Words move in order and are not lost.** -/
theorem tick_moves (b : Bus) (host : Host) (word : Option Word) (room : Bool) :
    Moves host word room (b.tick host word room) := by
  unfold tick
  cases b.phase with
  | receiveToTransmit => exact ⟨nofun, rfl, (List.append_nil _).symm, rfl, rfl, rfl⟩
  | transmitToReceive => exact ⟨nofun, rfl, (List.append_nil _).symm, rfl, rfl, rfl⟩
  | receive =>
      by_cases hpending : (host.hasWord && room) = true
      · have hroom : room = true := (Bool.and_eq_true_iff.mp hpending).2
        obtain ⟨w, hword⟩ := host.exists_nextWord (Bool.and_eq_true_iff.mp hpending).1
        simp only [hpending, if_true]
        exact ⟨fun _ => hroom, host.toDevice_takeWord, (List.append_nil _).symm, rfl,
          by rw [hword]; rfl, rfl⟩
      · simp only [hpending]
        exact ⟨nofun, rfl, (List.append_nil _).symm, rfl, rfl, rfl⟩
  | transmit =>
      cases word with
      | none =>
          simp only [Option.isSome_none, Bool.and_false]
          exact ⟨nofun, rfl, (List.append_nil _).symm, rfl, rfl, rfl⟩
      | some w =>
          cases hroom : host.hasRoom with
          | false => exact ⟨nofun, rfl, (List.append_nil _).symm, rfl, rfl, rfl⟩
          | true =>
              exact ⟨nofun, (host.toDevice_putWord w).symm, Host.sentWords_putWord hroom w, rfl, rfl,
                rfl⟩

/-- A tick changes no setting of the host. -/
theorem tick_settings (b : Bus) (host : Host) (word : Option Word) (room : Bool) :
    (b.tick host word room).next.2.capacity = host.capacity ∧
      (b.tick host word room).next.2.paused = host.paused := by
  unfold tick
  cases b.phase with
  | receiveToTransmit => exact ⟨rfl, rfl⟩
  | transmitToReceive => exact ⟨rfl, rfl⟩
  | receive =>
      simp only
      split <;> exact ⟨rfl, rfl⟩
  | transmit =>
      cases word with
      | none => exact ⟨rfl, rfl⟩
      | some w =>
          simp only
          split
          · exact host.settings_putWord w
          · exact ⟨rfl, rfl⟩

/-- A tick that moves no word leaves the host as it was. -/
theorem tick_still (htaken : (b.tick host word room).taken = false)
    (hsent : (b.tick host word room).sent = none) : (b.tick host word room).next.2 = host := by
  have hword : (b.tick host word room).sent.isSome = false := by rw [hsent]; rfl
  rw [taken_tick] at htaken
  rw [isSome_sent_tick] at hword
  unfold tick
  cases hphase : b.phase with
  | receiveToTransmit => rfl
  | transmitToReceive => rfl
  | receive => simp_all
  | transmit => cases word <;> simp_all

end Bus

end LinkBridge.Link
