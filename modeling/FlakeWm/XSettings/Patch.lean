import FlakeWm.XSettings.Codec

/-! The settings of another manager, patched.

    The patch copies the accepted entries, appends `Gtk/IMModule` and raises the count. The copy
    agrees with the original on the entries, so the walk over them is repeated; the new entry follows
    by the codec. A patched blob is therefore found complete and is not written again, which is why
    the `PropertyNotify` that the patch causes does not start a loop. -/

namespace FlakeWm.XSettings

open Bytes

variable {order : ByteOrder} {data : List UInt8} {name : CString}

/-- A built blob is accepted to its end, and reports exactly the names in it. -/
theorem scan_build (order : ByteOrder) (serial : UInt32) {settings : List Setting} (name : CString)
    (hnames : ∀ s ∈ settings, strlen s.name < 65536)
    (hsize : (buildXsettings order serial settings).data.length < 2 ^ 31) :
    ∃ found, xsettingsScan order (buildXsettings order serial settings).data name =
        some (some (found, (buildXsettings order serial settings).data.length)) ∧
      (found = true ↔ name ∈ settings.map (·.name)) := by
  have hdata := buildXsettings_data order serial hnames
  set data := (buildXsettings order serial settings).data
  set header := headerBytes order serial (UInt32.ofNat settings.length) with hheader
  have hhead : header.length = 12 := by simp [hheader, headerBytes]
  have hlen : data.length = 12 + (settings.flatMap (Setting.bytes order)).length := by
    rw [hdata, List.length_append, hhead]
  have hcount : settings.length < 2 ^ 32 := by
    have hle := length_le_flatMap_bytes order settings
    omega
  have hread : readUInt order 4 data 8 = some settings.length := by
    refine readUInt_at ((byteOrderCode order :: List.replicate 3 0) ++ encode order 4 serial.toNat)
      (settings.flatMap (Setting.bytes order)) ?_ (by simp) hcount
    rw [hdata, hheader, headerBytes, UInt32.toNat_ofNat_of_lt' hcount, List.append_assoc]
  have hwalk := scanEntries_settings name hsize settings header [] false hnames
    (by rw [hdata, List.append_nil])
  refine ⟨settings.any fun s => s.name.bytes == name.bytes, ?_, ?_⟩
  · rw [xsettingsScan, if_neg (by omega), hread, Option.bind_eq_bind, Option.bind_some, hlen]
    rw [hhead, Bool.false_or] at hwalk
    exact hwalk
  · simp only [List.any_eq_true, beq_iff_eq, List.mem_map]
    constructor
    · rintro ⟨s, hs, h⟩
      exact ⟨s, hs, CString.ext_bytes h⟩
    · rintro ⟨s, hs, rfl⟩
      exact ⟨s, hs, rfl⟩

/-! ### The patch -/

/-- The patched blob: the entries, the raised count, and the new entry. -/
def patched (order : ByteOrder) (data : List UInt8) (e count : ℕ) (s : Setting) : List UInt8 :=
  data.take 8 ++ (encode order 4 (count + 1) ++ ((data.take e).drop 12 ++ s.bytes order))

theorem overwrite_eq_patched {e count : ℕ} {s : Setting} (h12 : 12 ≤ e) (he : e ≤ data.length) :
    overwrite (data.take e ++ s.bytes order) 8 (encode order 4 (count + 1)) =
      patched order data e count s := by
  have hlen : (data.take e).length = e := by
    rw [List.length_take]
    omega
  rw [overwrite, length_encode, List.take_append_of_le_length (by omega), List.take_take,
    List.drop_append_of_le_length (by omega), patched, Nat.min_eq_left (by omega),
    List.append_assoc]

theorem patched_agree (order : ByteOrder) (count : ℕ) (s : Setting) {e : ℕ} (h12 : 12 ≤ e) (he : e ≤ data.length) :
    (∀ i, i < e → i < 8 ∨ 12 ≤ i → (patched order data e count s)[i]? = data[i]?) := by
  intro i hi hcount
  have h8 : (data.take 8).length = 8 := by
    rw [List.length_take]
    omega
  have hmid : ((data.take e).drop 12).length = e - 12 := by
    rw [List.length_drop, List.length_take]
    omega
  unfold patched
  rcases hcount with hlt | hge
  · rw [List.getElem?_append_left (by omega), List.getElem?_take_of_lt hlt]
  · rw [List.getElem?_append_right (by omega), h8,
      List.getElem?_append_right (by rw [length_encode]; omega), length_encode,
      List.getElem?_append_left (by omega), List.getElem?_drop, List.getElem?_take_of_lt (by omega)]
    congr 1
    omega

/-- The patched blob is accepted to its end, with one entry more, and the new name is found. -/
theorem scan_patched {e count : ℕ} {s : Setting} (hname : strlen s.name < 2 ^ 16)
    (hsmall : data.length < 2 ^ 31) (h12 : 12 ≤ data.length)
    (hwalk : scanEntries order data s.name count 12 false = some (some (false, e)))
    (hsize : (patched order data e count s).length < 2 ^ 31) :
    xsettingsScan order (patched order data e count s) s.name =
        some (some (true, (patched order data e count s).length)) ∧
      readUInt order 4 (patched order data e count s) 8 = some (count + 1) := by
  obtain ⟨hle, he⟩ := scanEntries_end (by omega) h12 hwalk
  have hagree := patched_agree order count s (by omega) he
  have hpre : (data.take 8 ++ (encode order 4 (count + 1) ++ (data.take e).drop 12)).length = e := by
    simp
    omega
  have hsplit : patched order data e count s =
      (data.take 8 ++ (encode order 4 (count + 1) ++ (data.take e).drop 12)) ++
        (s.bytes order ++ []) := by
    simp [patched]
  have hread : readUInt order 4 (patched order data e count s) 8 = some (count + 1) :=
    readUInt_at (data.take 8) ((data.take e).drop 12 ++ s.bytes order) rfl
      (by rw [List.length_take]; omega) (by norm_num; omega)
  obtain ⟨hE, hend⟩ := setting_entryAt s.name hname hsplit hsize
  rw [hpre] at hE hend
  have hlen : (patched order data e count s).length = e + (s.bytes order).length := by
    rw [hsplit, List.length_append, hpre, List.append_nil]
  have hwalk' := scanEntries_agree he (by omega) hsmall (by omega) count 12 false h12
    (fun i hi hi' => (hagree i hi' (.inr hi)).symm) hwalk
  refine ⟨?_, hread⟩
  rw [xsettingsScan, if_neg (by omega), hread, Option.bind_eq_bind, Option.bind_some,
    scanEntries_add count 1 12 false hwalk', scanEntries, hE.scan (by omega), Option.bind_eq_bind,
    Option.bind_some, hend, hlen]
  simp [scanEntries]

/-- A blob in which the name is found is not written again. -/
theorem patch_found {reply : PropertyReply} {e : ℕ} (settingsAtom : Atom) (module : Option CString)
    (owner : Option Window)
    (h : xsettingsScan order reply.value gtkIMModule = some (some (true, e))) :
    patchForeignSettings order settingsAtom module owner (some reply) = some none := by
  rcases module with _ | module <;> rcases owner with _ | owner <;> try rfl
  unfold patchForeignSettings
  simp only
  split_ifs with hguard
  · rfl
  · have hlen : 0 < reply.value.length := by omega
    rw [List.getElem?_eq_getElem hlen, Option.bind_eq_bind, Option.bind_some]
    split_ifs
    · rfl
    · rw [h]
      rfl

/-- What the patch writes over an accepted blob without the name. -/
theorem patch_not_found {reply : PropertyReply} {e count : ℕ} {settingsAtom : Atom}
    (module : CString) (owner : Window) (htype : reply.type = settingsAtom)
    (hformat : reply.format = 8) (horder : reply.value[0]? = some (byteOrderCode order))
    (hcount : readUInt order 4 reply.value 8 = some count) (hlen : 12 ≤ reply.value.length)
    (hwalk : scanEntries order reply.value gtkIMModule count 12 false = some (some (false, e))) :
    ∃ serial, patchForeignSettings order settingsAtom (some module) (some owner) (some reply) =
      some (some (patched order reply.value e count ⟨gtkIMModule, .string module, serial⟩)) := by
  have hsmall := reply.value_length
  obtain ⟨hle, he⟩ := scanEntries_end (by omega) hlen hwalk
  have hscan : xsettingsScan order reply.value gtkIMModule = some (some (false, e)) := by
    rw [xsettingsScan, if_neg (by omega), hcount]
    exact hwalk
  obtain ⟨serial, hserial, -⟩ := readUInt_of_le order (by omega : 4 + 4 ≤ reply.value.length)
  refine ⟨UInt32.ofNat serial, ?_⟩
  have hguard : ¬ (reply.type ≠ settingsAtom ∨ reply.format ≠ 8 ∨ reply.value.length < 12) := by
    rintro (h | h | h)
    · exact h htype
    · exact h hformat
    · omega
  have hshort : strlen gtkIMModule < 2 ^ 16 := by decide
  have happend : (xsettingsAppendString order (bufferAppend .empty (reply.value.take e)) gtkIMModule
      module (UInt32.ofNat serial)).data = reply.value.take e ++
        Setting.bytes order ⟨gtkIMModule, .string module, UInt32.ofNat serial⟩ :=
    appendSetting_data (s := ⟨gtkIMModule, .string module, UInt32.ofNat serial⟩) _ hshort
  unfold patchForeignSettings
  simp only
  rw [if_neg hguard, horder, Option.bind_eq_bind, Option.bind_some, if_neg (by simp), hscan,
    Option.bind_eq_bind, Option.bind_some]
  simp only
  rw [hserial, Option.bind_eq_bind, Option.bind_some, hcount, Option.bind_eq_bind, Option.bind_some,
    readBytes_of_le (by omega), Option.bind_some, List.drop_zero, happend,
    Nat.mod_eq_of_lt (by omega), overwrite_eq_patched (by omega) he]

/-- Blobs that are built are accepted and report their names; no bytes make the walk leave them;
    and a patch of a foreign blob is accepted, has one entry more, keeps the entries in place and is
    not patched again. -/
theorem xsettings_codec_and_patch (order : ByteOrder) :
    (∀ (serial : UInt32) (settings : List Setting) (name : CString),
      (∀ s ∈ settings, strlen s.name < 65536) →
      (buildXsettings order serial settings).data.length < 2 ^ 31 →
      ∃ found, xsettingsScan order (buildXsettings order serial settings).data name =
          some (some (found, (buildXsettings order serial settings).data.length)) ∧
        (found = true ↔ name ∈ settings.map (·.name))) ∧
    (∀ (data : List UInt8) (name : CString), data.length < 2 ^ 64 →
      ∃ r, xsettingsScan order data name = some r) ∧
    (∀ (settingsAtom : Atom) (module : CString) (owner : Window) (reply : PropertyReply) (e : ℕ),
      reply.type = settingsAtom → reply.format = 8 →
      reply.value[0]? = some (byteOrderCode order) →
      xsettingsScan order reply.value gtkIMModule = some (some (false, e)) →
      ∃ blob count,
        patchForeignSettings order settingsAtom (some module) (some owner) (some reply) =
          some (some blob) ∧
        readUInt order 4 reply.value 8 = some count ∧
        (∀ i, i < e → i < 8 ∨ 12 ≤ i → blob[i]? = reply.value[i]?) ∧
        (blob.length < 2 ^ 31 →
          xsettingsScan order blob gtkIMModule = some (some (true, blob.length)) ∧
          readUInt order 4 blob 8 = some (count + 1) ∧
          ∀ (reply' : PropertyReply) (module' : Option CString) (owner' : Option Window),
            reply'.value = blob →
            patchForeignSettings order settingsAtom module' owner' (some reply') =
              some none)) := by
  refine ⟨fun serial settings name hnames hsize => scan_build order serial name hnames hsize,
    fun data name hlen => xsettingsScan_in_bounds order name hlen, ?_⟩
  intro settingsAtom module owner reply e htype hformat horder hscan
  have hsmall := reply.value_length
  have hlen : 12 ≤ reply.value.length := by
    by_contra h
    rw [xsettingsScan, if_pos (by omega)] at hscan
    simp at hscan
  obtain ⟨count, hcount, -⟩ := readUInt_of_le order (by omega : 8 + 4 ≤ reply.value.length)
  have hwalk : scanEntries order reply.value gtkIMModule count 12 false =
      some (some (false, e)) := by
    rw [xsettingsScan, if_neg (by omega), hcount] at hscan
    exact hscan
  obtain ⟨hle, he⟩ := scanEntries_end (by omega) hlen hwalk
  obtain ⟨serial, hpatch⟩ :=
    patch_not_found module owner htype hformat horder hcount hlen hwalk
  refine ⟨_, count, hpatch, hcount, patched_agree order count _ (by omega) he, fun hsize => ?_⟩
  have hshort : strlen gtkIMModule < 2 ^ 16 := by decide
  obtain ⟨hagain, hmore⟩ := scan_patched (s := ⟨gtkIMModule, .string module, serial⟩) hshort hsmall
    hlen hwalk hsize
  refine ⟨hagain, hmore, fun reply' module' owner' hvalue => ?_⟩
  rw [← hvalue] at hagain
  exact patch_found settingsAtom module' owner' hagain

def xcursorSize : CString :=
  ⟨bytesOf ['X', 'c', 'u', 'r', 's', 'o', 'r', '/', 'S', 'i', 'z', 'e'], by decide⟩

/-- A manager that publishes one integer. -/
def foreignReply : PropertyReply where
  type := 1
  format := 8
  value := (buildXsettings .little 5 [⟨xcursorSize, .int 24, 5⟩]).data
  value_length := by decide

def fcitx : CString := ⟨bytesOf ['f', 'c', 'i', 't', 'x'], by decide⟩

/-- Its blob is patched once, to 68 bytes, and then left alone. -/
theorem foreignReply_patched_once :
    ∃ blob, patchForeignSettings .little 1 (some fcitx) (some 7) (some foreignReply) =
        some (some blob) ∧ blob.length = 68 ∧
      xsettingsScan .little blob gtkIMModule = some (some (true, 68)) ∧
      ∀ reply' : PropertyReply, reply'.value = blob →
        patchForeignSettings .little 1 (some fcitx) (some 7) (some reply') = some none := by
  have hscan : xsettingsScan .little foreignReply.value gtkIMModule = some (some (false, 36)) := by
    decide +kernel
  obtain ⟨blob, count, hpatch, -, -, hsize⟩ := (xsettings_codec_and_patch .little).2.2 1 fcitx 7
    foreignReply 36 rfl rfl rfl hscan
  have hlen : blob.length = 68 := by
    have h : (patchForeignSettings .little 1 (some fcitx) (some 7) (some foreignReply)).map
        (Option.map List.length) = some (some 68) := by decide +kernel
    rw [hpatch] at h
    simpa using h
  obtain ⟨hagain, -, honce⟩ := hsize (by omega)
  exact ⟨blob, hpatch, hlen, hlen ▸ hagain, fun reply' h => honce reply' _ _ h⟩

end FlakeWm.XSettings
