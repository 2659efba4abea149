import ContextualQuery.Uuid
/-!
# Identifiers that are written and read again

The digits of a byte are read as that byte (`Uuid.readBytes?_writeBytes`), and the five groups that
an identifier is written in stand between the hyphens that are looked for
(`Uuid.readGroups?_hyphens`), so an identifier is read again from what is written for it
(`Uuid.read?_write`).
-/

namespace ContextualQuery

namespace Uuid

theorem digitValue?_digitChar : ∀ n < 16, digitValue? (Nat.digitChar n) = some n := by decide

/-- The two digits of a byte are read as the byte. -/
theorem readBytes?_writeByte (b : UInt8) (rest : List Char) :
    readBytes? (writeByte b ++ rest) = (readBytes? rest).map (b :: ·) := by
  have hb := b.toNat_lt
  have hhigh := digitValue?_digitChar (b.toNat / 16) (by omega)
  have hlow := digitValue?_digitChar (b.toNat % 16) (by omega)
  have hvalue : UInt8.ofNat (16 * (b.toNat / 16) + b.toNat % 16) = b := by
    rw [Nat.div_add_mod, UInt8.ofNat_toNat]
  show readBytes? (Nat.digitChar (b.toNat / 16) :: Nat.digitChar (b.toNat % 16) :: rest) = _
  rw [readBytes?, hhigh, hlow]
  cases readBytes? rest with
  | none => rfl
  | some bytes => exact congrArg (fun b => some (b :: bytes)) hvalue

theorem readBytes?_writeBytes (bytes : List UInt8) : readBytes? (writeBytes bytes) = some bytes := by
  induction bytes with
  | nil => rfl
  | cons b bytes ih =>
    rw [writeBytes, List.flatMap_cons, readBytes?_writeByte]
    exact congrArg (Option.map (b :: ·)) ih

theorem length_writeBytes (bytes : List UInt8) : (writeBytes bytes).length = 2 * bytes.length := by
  induction bytes with
  | nil => rfl
  | cons b bytes ih =>
    rw [writeBytes, List.flatMap_cons, List.length_append]
    have htwo : (writeByte b).length = 2 := rfl
    have hrest : (bytes.flatMap writeByte).length = 2 * bytes.length := ih
    rw [htwo, hrest, List.length_cons]
    omega

/-- Five groups with hyphens between them are told apart by their lengths. -/
theorem readGroups?_hyphens {a b c d e : List Char} (ha : a.length = 8) (hb : b.length = 4)
    (hc : c.length = 4) (hd : d.length = 4) :
    readGroups? (a ++ '-' :: (b ++ '-' :: (c ++ '-' :: (d ++ '-' :: e)))) =
      readPlain? (a ++ b ++ c ++ d ++ e) := by
  have hdrop {n : Nat} {g rest : List Char} (hg : g.length = n) :
      (g ++ '-' :: rest).drop (n + 1) = rest := by
    rw [← hg, List.drop_append, List.drop_of_length_le (by omega), List.nil_append,
      Nat.add_sub_cancel_left]
    rfl
  have hhead {n : Nat} {g rest : List Char} (hg : g.length = n) :
      (g ++ '-' :: rest)[n]? = some '-' := by
    rw [List.getElem?_append_right (by omega), hg, Nat.sub_self]
    rfl
  generalize htext : a ++ '-' :: (b ++ '-' :: (c ++ '-' :: (d ++ '-' :: e))) = cs
  have hb9 : cs.drop 9 = b ++ '-' :: (c ++ '-' :: (d ++ '-' :: e)) := htext ▸ hdrop ha
  have hc14 : cs.drop 14 = c ++ '-' :: (d ++ '-' :: e) := by
    rw [show 14 = 9 + 5 from rfl, ← List.drop_drop, hb9, hdrop hb]
  have hd19 : cs.drop 19 = d ++ '-' :: e := by
    rw [show 19 = 14 + 5 from rfl, ← List.drop_drop, hc14, hdrop hc]
  have he24 : cs.drop 24 = e := by
    rw [show 24 = 19 + 5 from rfl, ← List.drop_drop, hd19, hdrop hd]
  have h8 : cs[8]? = some '-' := htext ▸ hhead ha
  have h13 : cs[13]? = some '-' := by
    rw [show 13 = 9 + 4 from rfl, ← List.getElem?_drop, hb9, hhead hb]
  have h18 : cs[18]? = some '-' := by
    rw [show 18 = 14 + 4 from rfl, ← List.getElem?_drop, hc14, hhead hc]
  have h23 : cs[23]? = some '-' := by
    rw [show 23 = 19 + 4 from rfl, ← List.getElem?_drop, hd19, hhead hd]
  have ha8 : cs.take 8 = a := htext ▸ List.take_left' ha
  have hhyphens : ([8, 13, 18, 23].all fun i => cs[i]? == some '-') = true := by
    simp [h8, h13, h18, h23]
  unfold readGroups?
  rw [if_pos hhyphens, ha8, hb9, hc14, hd19, he24, List.take_left' hb, List.take_left' hc,
    List.take_left' hd]

/-- **An identifier that is written is read again.** -/
theorem read?_write (u : Uuid) : read? u.write.toList = some u := by
  have hsize := u.size
  have hgroup (first count : Nat) (h : first + count ≤ 16) :
      (writeBytes ((u.bytes.drop first).take count)).length = 2 * count := by
    rw [length_writeBytes, List.length_take, List.length_drop]
    omega
  have hnext (first count : Nat) : (u.bytes.drop first).take count ++ u.bytes.drop (first + count) =
      u.bytes.drop first := by
    rw [← List.drop_drop, List.take_append_drop]
  have hlast : (u.bytes.drop 10).take 6 = u.bytes.drop 10 :=
    List.take_of_length_le (by rw [List.length_drop]; omega)
  have hbytes : writeBytes ((u.bytes.drop 0).take 4) ++ writeBytes ((u.bytes.drop 4).take 2) ++
      writeBytes ((u.bytes.drop 6).take 2) ++ writeBytes ((u.bytes.drop 8).take 2) ++
      writeBytes ((u.bytes.drop 10).take 6) = writeBytes u.bytes := by
    simp only [writeBytes, ← List.flatMap_append, List.append_assoc]
    rw [hlast, hnext 8 2, hnext 6 2, hnext 4 2, hnext 0 4, List.drop_zero]
  have hread := readGroups?_hyphens (e := writeBytes ((u.bytes.drop 10).take 6))
    (hgroup 0 4 (by omega)) (hgroup 4 2 (by omega)) (hgroup 6 2 (by omega)) (hgroup 8 2 (by omega))
  have hofBytes : ofBytes? u.bytes = some u := dif_pos hsize
  have htext : u.write.toList = writeBytes ((u.bytes.drop 0).take 4) ++
      '-' :: (writeBytes ((u.bytes.drop 4).take 2) ++
        '-' :: (writeBytes ((u.bytes.drop 6).take 2) ++
          '-' :: (writeBytes ((u.bytes.drop 8).take 2) ++
            '-' :: writeBytes ((u.bytes.drop 10).take 6)))) := by
    simp [write]
  have hlength : u.write.toList.length = 36 := by
    rw [htext]
    simp only [List.length_append, List.length_cons, hgroup 0 4, hgroup 4 2, hgroup 6 2, hgroup 8 2,
      hgroup 10 6, Nat.reduceAdd, Nat.reduceLeDiff]
  rw [read?, if_neg (by omega), if_pos hlength, htext, hread, hbytes, readPlain?,
    readBytes?_writeBytes]
  exact hofBytes

end Uuid

end ContextualQuery
