import MeshcoreSniffer.Meshtastic.Decoders
import MeshcoreSniffer.Meshtastic.Wire

/-!
# Repeated fields of a route

`mesh_decode_traceroute` and `parse_route_discovery` read repeated fields into arrays of 16, which
hold the first numbers sent, however they were split (`collect_repeats`).
-/

namespace MeshcoreSniffer.Meshtastic

open Lib List Lib.Wire

/-! ## One field -/

section Collect

variable {α : Type} (element : BitVec 64 → α)

def appendValue (v : Value) (arr : List α) : List α :=
  match v with
  | .varint v => if arr.length < routeCap then arr ++ [element v] else arr
  | .bytes content => parsePacked element (content.length + 1) content arr
  | _ => arr

def collect (number : Nat) (fields : List Field) (arr : List α) : List α :=
  fields.foldl (fun arr f => if f.number = number then appendValue element f.value arr else arr) arr

variable {v : Value} {vs : List (BitVec 64)} {arr : List α}

theorem appendRepeated_complete {bs : List Byte} (h : v.Complete bs) (rest : List Byte)
    (arr : List α) : appendRepeated element (BitVec.ofNat 3 v.wireType) (bs ++ rest) arr =
      some (appendValue element v arr, rest) := by
  have hskip := pbSkipValue_complete h rest
  cases h with
  | varint hv => simp [appendRepeated, Value.wireType, pbReadVarint_lax hv, appendValue]
  | bytes hl hlen =>
    simp [appendRepeated, Value.wireType, pbReadLength_complete hl hlen, appendValue]
  | fixed64 bs =>
    rw [appendRepeated, if_neg (by simp [Value.wireType]), if_neg (by simp [Value.wireType]), hskip]
    rfl
  | fixed32 v =>
    rw [appendRepeated, if_neg (by simp [Value.wireType]), if_neg (by simp [Value.wireType]), hskip]
    rfl

theorem take_take_append (cap : Nat) (l r : List α) : (l.take cap ++ r).take cap = (l ++ r).take cap := by
  have hroom : cap - min cap l.length = cap - l.length := by omega
  rw [take_append, take_append, take_take, Nat.min_self, length_take, hroom]

theorem parsePacked_packed {block : List Byte} (h : Packed vs block) (harr : arr.length ≤ routeCap)
    {fuel : Nat} (hfuel : block.length < fuel) :
    parsePacked element fuel block arr = (arr ++ vs.map element).take routeCap := by
  induction h generalizing arr fuel with
  | nil =>
    obtain ⟨fuel, rfl⟩ : ∃ k, fuel = k + 1 := ⟨fuel - 1, by omega⟩
    rw [parsePacked, if_pos (Or.inl rfl), map_nil, append_nil, take_of_length_le harr]
  | @cons v vs bs rest hv _ ih =>
    obtain ⟨fuel, rfl⟩ : ∃ k, fuel = k + 1 := ⟨fuel - 1, by omega⟩
    have hpos := hv.length_pos
    rw [length_append] at hfuel
    rw [parsePacked]
    split
    next hstop =>
      rcases hstop with hnil | hfull
      · rw [append_eq_nil_iff] at hnil
        rw [hnil.1] at hpos
        exact absurd hpos (Nat.lt_irrefl 0)
      · rw [take_append_of_le_length hfull, take_of_length_le harr]
    next hgo =>
      rw [not_or, not_le] at hgo
      rw [pbReadVarint_lax hv]
      dsimp only
      rw [ih (by rw [length_append, length_singleton]; omega) (by omega), append_assoc]
      rfl

theorem appendValue_carries (h : v.Carries vs) (harr : arr.length ≤ routeCap) :
    appendValue element v arr = (arr ++ vs.map element).take routeCap := by
  cases h with
  | single v =>
    rw [appendValue, map_singleton]
    split
    next hroom =>
      rw [take_of_length_le]
      rw [length_append, length_singleton]
      omega
    next hfull => rw [take_append_of_le_length (not_lt.mp hfull), take_of_length_le harr]
  | packed hblock => exact parsePacked_packed element hblock harr (Nat.lt_succ_self _)
  | fixed64 bs => simp [appendValue, take_of_length_le harr]
  | fixed32 v => simp [appendValue, take_of_length_le harr]

/-- **One field.** The array holds the first numbers sent, however they were split. -/
theorem collect_repeats {number : Nat} {fields : List Field} (h : Repeats number fields vs)
    (harr : arr.length ≤ routeCap) :
    collect element number fields arr = (arr ++ vs.map element).take routeCap := by
  induction h generalizing arr with
  | nil => rw [collect, foldl_nil, map_nil, append_nil, take_of_length_le harr]
  | @here v fs ws vs hv _ ih =>
    rw [collect, foldl_cons, if_pos rfl, ← collect, appendValue_carries element hv harr,
      ih (length_take_le _ _), take_take_append, append_assoc, map_append]
  | other hf _ ih =>
    rw [collect, foldl_cons, if_neg hf, ← collect]
    exact ih harr

theorem collect_snoc (number : Nat) (fields : List Field) (f : Field) (arr : List α) :
    collect element number (fields ++ [f]) arr =
      if f.number = number then appendValue element f.value (collect element number fields arr)
      else collect element number fields arr := by
  rw [collect, foldl_append]
  rfl

end Collect

/-! ## Messages -/

def tracerouteStep (f : Field) (s : Traceroute) : Traceroute :=
  if f.number = 1 then { s with route := appendValue low32 f.value s.route }
  else if f.number = 2 then { s with snrTowards := appendValue low8 f.value s.snrTowards }
  else if f.number = 3 then { s with routeBack := appendValue low32 f.value s.routeBack }
  else if f.number = 4 then { s with snrBack := appendValue low8 f.value s.snrBack }
  else s

def Traceroute.ofFields (fields : List Field) : Traceroute where
  route := collect low32 1 fields []
  snrTowards := collect low8 2 fields []
  routeBack := collect low32 3 fields []
  snrBack := collect low8 4 fields []

theorem foldl_tracerouteStep (fields : List Field) :
    fields.foldl (fun s f => tracerouteStep f s) {} = Traceroute.ofFields fields := by
  induction fields using List.reverseRecOn with
  | nil => rfl
  | append_singleton fields f ih =>
    rw [foldl_append, foldl_cons, foldl_nil, ih, tracerouteStep]
    simp only [Traceroute.ofFields, collect_snoc]
    by_cases h1 : f.number = 1
    · simp [h1]
    by_cases h2 : f.number = 2
    · simp [h2]
    by_cases h3 : f.number = 3
    · simp [h3]
    by_cases h4 : f.number = 4
    · simp [h4]
    simp [h1, h2, h3, h4]

theorem tracerouteFields_step {f : Field} {fld : BitVec 32} {val : List Byte} (hfld : fld.toNat = f.number)
    (hval : f.value.Complete val) (rest : List Byte) (s : Traceroute) :
    tracerouteFields fld (BitVec.ofNat 3 f.value.wireType) (val ++ rest) s =
      some (tracerouteStep f s, rest) := by
  have h1 : fld = 1 ↔ f.number = 1 := hfld ▸ toNat_eq_iff fld (by decide)
  have h2 : fld = 2 ↔ f.number = 2 := hfld ▸ toNat_eq_iff fld (by decide)
  have h3 : fld = 3 ↔ f.number = 3 := hfld ▸ toNat_eq_iff fld (by decide)
  have h4 : fld = 4 ↔ f.number = 4 := hfld ▸ toNat_eq_iff fld (by decide)
  simp only [tracerouteFields, tracerouteStep, h1, h2, h3, h4, appendRepeatedU32, appendRepeatedI8,
    appendRepeated_complete _ hval, pbSkipValue_complete hval, Option.map_some]
  split_ifs <;> rfl

variable {fields : List Field} {buf : List Byte} {number : Nat} {xs : List (BitVec 32)}

theorem pbMessage_traceroute (h : Complete fields buf) :
    pbMessage tracerouteFields buf {} = (Traceroute.ofFields fields, .done) := by
  rw [pbMessage, pbLoop_steps tracerouteStep h ?_ (Nat.lt_succ_self _), foldl_tracerouteStep]
  intro f _ fld val rest s hfld hval
  exact tracerouteFields_step hfld hval rest s

theorem parseRouteDiscovery_complete (h : Complete fields buf) (route : List (BitVec 32)) :
    parseRouteDiscovery buf route = collect low32 1 fields route := by
  rw [parseRouteDiscovery, pbMessage, pbLoop_steps
    (fun f route => if f.number = 1 then appendValue low32 f.value route else route) h ?_
    (Nat.lt_succ_self _)]
  · rfl
  intro f _ fld val rest route hfld hval
  have h1 : fld = 1 ↔ f.number = 1 := hfld ▸ toNat_eq_iff fld (by decide)
  simp only [routeDiscoveryFields, h1, appendRepeatedU32, appendRepeated_complete _ hval,
    pbSkipValue_complete hval, Option.map_some]
  split <;> rfl

def Sends (number : Nat) (fields : List Field) (xs : List (BitVec 32)) : Prop :=
  ∃ vs, Repeats number fields vs ∧ xs = vs.map low32

theorem collect_sends (h : Sends number fields xs) :
    collect low32 number fields [] = xs.take routeCap := by
  obtain ⟨vs, hvs, rfl⟩ := h
  rw [collect_repeats low32 hvs (Nat.zero_le _), nil_append]

theorem collect_sends_low8 (h : Sends number fields xs) :
    collect low8 number fields [] = (xs.take routeCap).map (·.setWidth 8) := by
  obtain ⟨vs, hvs, rfl⟩ := h
  have hcut : ∀ v, low8 v = (low32 v).setWidth 8 := fun v => (BitVec.setWidth_setWidth_of_le v (by decide)).symm
  rw [collect_repeats low8 hvs (Nat.zero_le _), nil_append, ← map_take, ← map_take,
    map_map]
  exact map_congr_left fun v _ => hcut v

/-- **Routes.** Of the four repeated fields of a complete message, split in any way, both decoders
keep the first 16 numbers, the signal levels as signed bytes. -/
theorem traceroute_repeats (fields : List Field) (buf : List Byte) (h : Complete fields buf)
    (route snrTowards routeBack snrBack : List (BitVec 32)) (h1 : Sends 1 fields route)
    (h2 : Sends 2 fields snrTowards) (h3 : Sends 3 fields routeBack) (h4 : Sends 4 fields snrBack) :
    (pbMessage tracerouteFields buf {}).1 =
        ⟨route.take 16, (snrTowards.take 16).map (·.setWidth 8), routeBack.take 16,
          (snrBack.take 16).map (·.setWidth 8)⟩ ∧
      meshDecodeTraceroute buf =
        (if route = [] ∧ routeBack = [] then none else some (pbMessage tracerouteFields buf {}).1) ∧
      parseRouteDiscovery buf [] = route.take 16 := by
  have hout : Traceroute.ofFields fields =
      ⟨route.take 16, (snrTowards.take 16).map (·.setWidth 8), routeBack.take 16,
        (snrBack.take 16).map (·.setWidth 8)⟩ := by
    rw [Traceroute.ofFields, collect_sends h1, collect_sends_low8 h2, collect_sends h3,
      collect_sends_low8 h4]
    rfl
  have hempty : ∀ l : List (BitVec 32), l.take 16 = [] ↔ l = [] := by simp
  rw [pbMessage_traceroute h, parseRouteDiscovery_complete h, collect_sends h1]
  refine ⟨hout, ?_, rfl⟩
  rw [meshDecodeTraceroute, decodeWhole, pbMessage_traceroute h]
  dsimp only
  rw [hout]
  simp only [Bool.or_eq_true, bne_iff_ne, ne_eq, hempty]
  by_cases hroute : route = [] ∧ routeBack = []
  · rw [if_pos hroute, if_neg (by simp [hroute])]
  · rw [if_neg hroute, if_pos (by tauto)]

/-- The first hop alone, the others in a block, a signal level of -10 between them. -/
def threeHops : List Field :=
  [ ⟨1, .varint 7⟩, ⟨2, .varint (-10)⟩, ⟨1, .bytes [0x08, 0x89, 0x00]⟩ ]

theorem traceroute_repeats_threeHops :
    (pbMessage tracerouteFields (encode threeHops) {}).1 = ⟨[7, 8, 9], [-10], [], []⟩ ∧
      meshDecodeTraceroute (encode threeHops) = some ⟨[7, 8, 9], [-10], [], []⟩ ∧
      parseRouteDiscovery (encode threeHops) [] = [7, 8, 9] := by
  have hcomplete : Complete threeHops (encode threeHops) := (encodes_encode (by decide)).complete
  -- the nine is sent with an empty group
  have hblock : Packed [8, 9] [0x08, 0x89, 0x00] :=
    .cons ⟨8, .last 0x08 (by decide), by decide, rfl⟩
      (.cons ⟨9, .more 0x89 (by decide) (.last 0x00 (by decide)), by decide, rfl⟩ .nil)
  have h1 : Sends 1 threeHops [7, 8, 9] :=
    ⟨[7] ++ ([8, 9] ++ []), .here (.single 7) (.other (by decide) (.here (.packed hblock) .nil)), rfl⟩
  have h2 : Sends 2 threeHops [-10] :=
    ⟨[-10] ++ [], .other (by decide) (.here (.single (-10)) (.other (by decide) .nil)), rfl⟩
  have hnone : ∀ n, n ≠ 1 → n ≠ 2 → Sends n threeHops [] := fun n hn1 hn2 =>
    ⟨[], .other hn1.symm (.other hn2.symm (.other hn1.symm .nil)), rfl⟩
  obtain ⟨hout, hdecode, hroute⟩ := traceroute_repeats threeHops (encode threeHops) hcomplete
    _ _ _ _ h1 h2 (hnone 3 (by decide) (by decide)) (hnone 4 (by decide) (by decide))
  refine ⟨hout, ?_, hroute⟩
  rw [hdecode, hout]
  rfl

/-- **A signal level past a byte.** A level of 300 is reported as 44. -/
theorem snr_cut :
    ∃ fields, Complete fields (encode fields) ∧ Sends 2 fields [300] ∧
      (pbMessage tracerouteFields (encode fields) {}).1.snrTowards.map (·.signExtend 32) = [44] := by
  refine ⟨[⟨1, .varint 7⟩, ⟨2, .varint 300⟩], (encodes_encode (by decide)).complete, ?_, by decide +kernel⟩
  exact ⟨[300] ++ [], .other (by decide) (.here (.single 300) .nil), rfl⟩

end MeshcoreSniffer.Meshtastic
