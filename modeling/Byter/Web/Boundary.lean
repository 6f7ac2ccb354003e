import Mathlib.Data.List.Infix
import Byter.Web.Frame

/-!
# Where the head ends

The end of a head may lie inside a packet. The rest of that packet and the packets behind it
then reach the request as packets of its body would.
-/

namespace Byter

open AsyncWebServerRequest

variable {ρ : Type*} {S : AsyncWebServer ρ} {r : AsyncWebServerRequest ρ} {head rest buf : Bytes}

/-! ## Ends of packets -/

/-- Some packets from the first on have `n` bytes. -/
def PacketEnd (packets : List Bytes) (n : ℕ) : Prop :=
  ∃ pre, pre <+: packets ∧ pre.flatten.length = n

instance (packets : List Bytes) (n : ℕ) : Decidable (PacketEnd packets n) :=
  decidable_of_iff (∃ pre ∈ packets.inits, pre.flatten.length = n) (by simp [PacketEnd])

theorem packetEnd_cons {packets : List Bytes} {n : ℕ} (hn : 0 < n) :
    PacketEnd (buf :: packets) n ↔ buf.length ≤ n ∧ PacketEnd packets (n - buf.length) := by
  constructor
  · rintro ⟨pre, hpre, hlength⟩
    cases pre with
    | nil => exact absurd hlength hn.ne
    | cons buf' pre =>
        obtain ⟨rfl, hrest⟩ := List.cons_prefix_cons.1 hpre
        rw [List.flatten_cons, List.length_append] at hlength
        exact ⟨by omega, pre, hrest, by omega⟩
  · rintro ⟨hle, pre, hpre, hlength⟩
    refine ⟨buf :: pre, List.cons_prefix_cons.2 ⟨rfl, hpre⟩, ?_⟩
    rw [List.flatten_cons, List.length_append]
    omega

/-! ## A packet that holds the end of a head -/

/-- These bytes end a head that has not ended before them. -/
structure AsyncWebServer.Ends (S : AsyncWebServer ρ) (r : AsyncWebServerRequest ρ) (head : Bytes) :
    Prop where
  zero : 0 ∉ head
  done : ¬ (S.head.dest r head).Reading
  early : ∀ pre, pre <+: head → pre ≠ head → (S.head.dest r pre).Reading

namespace AsyncWebServer.Ends

theorem drop {pre rest : Bytes} (h : S.Ends r (pre ++ rest)) : S.Ends (S.head.dest r pre) rest where
  zero hmem := h.zero (List.mem_append_right pre hmem)
  done := by
    rw [← Scanner.dest_append]
    exact h.done
  early pre' hpre' hne := by
    rw [← Scanner.dest_append]
    exact h.early _ ((List.prefix_append_right_inj pre).2 hpre') fun heq =>
      hne (List.append_cancel_left heq)

theorem reading (h : S.Ends r head) (hne : head ≠ []) : r.Reading :=
  h.early [] List.nil_prefix (Ne.symm hne)

theorem mem_lf (h : S.Ends r head) (hne : head ≠ []) : LF ∈ head := by
  by_contra hlf
  obtain ⟨hdest, -⟩ := head_line (S := S) (h.reading hne) hlf
  refine h.done ?_
  rw [hdest]
  exact h.reading hne

end AsyncWebServer.Ends

/-- The end of a head in a packet: what is left of the packet is read as the next packet
would be. -/
theorem onDataLoop_ends (h : S.Ends r head) (hne : head ≠ []) (rest : Bytes) {fuel : ℕ}
    (hfuel : (head ++ rest).length < fuel) :
    ∃ k, rest.length < k ∧ S.onDataLoop fuel (head ++ rest) r =
      if rest = [] then some (S.head.dest r head, (S.head.scan r head).flatMap id)
      else (S.onDataLoop k rest (S.head.dest r head)).map fun last =>
        (last.1, (S.head.scan r head).flatMap id ++ last.2) := by
  induction fuel generalizing head r with
  | zero => omega
  | succ fuel ih =>
      have hreading := h.reading hne
      obtain ⟨line, head', rfl, hlf⟩ := List.eq_append_cons_of_mem (h.mem_lf hne)
      have hzero : 0 ∉ line := fun hmem => h.zero (List.mem_append_left _ hmem)
      obtain ⟨hdest, hscan⟩ := head_line_lf (S := S) hreading hlf head'
      have hfirst := (head_line_lf (S := S) hreading hlf []).1
      have hrest : S.Ends (S.parseLine { r with temp := trim (r.temp ++ line) }).1 head' := by
        have hdrop : S.Ends r ((line ++ [LF]) ++ head') := by simpa using h
        have hends := hdrop.drop
        rwa [hfirst] at hends
      have hline := onDataLoop_line (S := S) hreading hlf hzero (head' ++ rest) fuel
      rw [List.append_assoc, List.cons_append, hline, hdest, hscan]
      generalize S.parseLine { r with temp := trim (r.temp ++ line) } = next at hrest ⊢
      simp only [List.length_append, List.length_cons] at hfuel
      by_cases hhead : head' = []
      · subst hhead
        refine ⟨fuel, by omega, ?_⟩
        simp
      · obtain ⟨k, hk, hloop⟩ := ih hrest hhead (by
          rw [List.length_append]
          omega)
        refine ⟨k, hk, ?_⟩
        dsimp only
        rw [if_neg fun hnil => hhead (List.append_eq_nil_iff.1 hnil).1, hloop]
        by_cases hnil : rest = []
        · simp [hnil]
        · rw [if_neg hnil, if_neg hnil, Option.map_map]
          simp [Function.comp_def]

/-! ## Packets of a whole request -/

theorem receive_step (buf : Bytes) (packets : List Bytes) (r : AsyncWebServerRequest ρ) :
    S.receive (buf :: packets) r =
      (S.onData buf r).bind fun first =>
        (S.receive packets first.1).map fun last => (last.1, first.2 ++ last.2) := rfl

/-- The packet in which the head ends. -/
theorem receive_crossing (h : S.Ends r head) (hne : head ≠ []) (rest : Bytes)
    (packets : List Bytes) :
    ∃ packets', packets'.flatten = rest ++ packets.flatten ∧
      (∀ n, 0 < n →
        (PacketEnd packets' n ↔ PacketEnd ((head ++ rest) :: packets) (head.length + n))) ∧
      S.receive ((head ++ rest) :: packets) r =
        (S.receive packets' (S.head.dest r head)).map fun last =>
          (last.1, (S.head.scan r head).flatMap id ++ last.2) := by
  obtain ⟨k, hk, hloop⟩ := onDataLoop_ends h hne rest (Nat.lt_succ_self _)
  have hdata : S.onData (head ++ rest) r = S.onDataLoop ((head ++ rest).length + 1) (head ++ rest) r :=
    rfl
  rw [receive_step, hdata, hloop]
  by_cases hrest : rest = []
  · subst hrest
    refine ⟨packets, rfl, fun n hn => ?_, ?_⟩
    · rw [packetEnd_cons (by omega), List.append_nil, Nat.add_sub_cancel_left]
      exact (and_iff_right (by omega)).symm
    · rw [if_pos rfl]
      rfl
  · refine ⟨rest :: packets, List.flatten_cons, fun n hn => ?_, ?_⟩
    · have hsub : head.length + n - (head.length + rest.length) = n - rest.length := by omega
      rw [packetEnd_cons hn, packetEnd_cons (by omega), List.length_append, hsub]
      exact and_congr_left fun _ => by omega
    · rw [if_neg hrest, onDataLoop_behind h.done (by omega), receive_step]
      cases S.onData rest (S.head.dest r head) with
      | none => rfl
      | some first =>
          simp only [Option.map_some, Option.bind_some, Option.map_map]
          simp [Function.comp_def, List.append_assoc]

/-- As long as the head is not over, the packets make of the request what their bytes make. -/
theorem receive_early {packets : List Bytes} (h : S.Ends r (packets.flatten ++ rest))
    (hrest : rest ≠ []) :
    S.receive packets r =
      some (S.head.dest r packets.flatten, (S.head.scan r packets.flatten).flatMap id) := by
  induction packets generalizing r with
  | nil => rfl
  | cons buf packets ih =>
      rw [List.flatten_cons, List.append_assoc] at h
      have hreading := h.early buf (List.prefix_append buf _) fun heq =>
        hrest (List.append_eq_nil_iff.1 (List.append_right_eq_self.1 heq.symm)).2
      have hhead : S.HeadOnly r buf :=
        .of_reading (fun hmem => h.zero (List.mem_append_left _ hmem)) hreading
      have hdata := (onData_follows S).feed_eq r buf hhead
      rw [receive_step, hdata, Option.bind_some, ih h.drop, Option.map_some, List.flatten_cons,
        Scanner.dest_append, Scanner.scan_append, List.flatMap_append]

/-- Wherever the packets are cut: behind the head the request is the one that the bytes of the
head make, and it gets what is left in packets that end where they ended. -/
theorem receive_ends {packets : List Bytes} {body : Bytes} (h : S.Ends r head) (hne : head ≠ [])
    (hpackets : packets.flatten = head ++ body) :
    ∃ packets', packets'.flatten = body ∧
      (∀ n, 0 < n → (PacketEnd packets' n ↔ PacketEnd packets (head.length + n))) ∧
      S.receive packets r =
        (S.receive packets' (S.head.dest r head)).map fun last =>
          (last.1, (S.head.scan r head).flatMap id ++ last.2) := by
  induction packets generalizing head r with
  | nil =>
      rw [List.flatten_nil] at hpackets
      exact absurd (List.append_eq_nil_iff.1 hpackets.symm).1 hne
  | cons buf packets ih =>
      rw [List.flatten_cons] at hpackets
      obtain ⟨head', rfl, hflatten⟩ | ⟨rest, rfl, rfl⟩ := List.append_eq_append_iff.1 hpackets
      · by_cases hhead : head' = []
        · -- the packet ends with the head
          subst hhead
          rw [List.append_nil] at h hne ⊢
          have hcrossing := receive_crossing h hne [] packets
          rwa [List.append_nil, List.nil_append, hflatten, List.nil_append] at hcrossing
        · -- the head goes on
          have hproper : buf ≠ buf ++ head' := fun heq => hhead (List.append_right_eq_self.1 heq.symm)
          have hreading := h.early buf (List.prefix_append buf head') hproper
          have hhead : S.HeadOnly r buf :=
            .of_reading (fun hmem => h.zero (List.mem_append_left head' hmem)) hreading
          have hdata := (onData_follows S).feed_eq r buf hhead
          obtain ⟨packets', hbody, hends, hreceive⟩ := ih h.drop ‹_› hflatten
          refine ⟨packets', hbody, fun n hn => ?_, ?_⟩
          · rw [hends n hn, packetEnd_cons (by omega), List.length_append]
            have hsub : buf.length + head'.length + n - buf.length = head'.length + n := by omega
            rw [hsub]
            exact (and_iff_right (by omega)).symm
          · rw [receive_step, hdata, Option.bind_some, hreceive, Option.map_map, Scanner.dest_append,
              Scanner.scan_append, List.flatMap_append]
            simp [Function.comp_def, List.append_assoc]
      · exact receive_crossing h hne rest packets

end Byter
