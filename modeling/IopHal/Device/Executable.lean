import IopHal.Device
import IopHal.Md5.Stream
import IopHal.Text.Views
import IopHal.Update

/-!
# `Device::firmwareMD5` on Linux

The file that the executable's path names is read, hashed and printed once; later calls return the same array, whatever the
path names by then (`firmwareMD5_cached`).  That a read of the file fails is left out.
-/

namespace IopHal.Device

/-- The statics of the function: the array, and whether it has been filled. -/
structure Statics where
  hash : Bytes
  cached : Bool

/-- The statics of a process that has just been started -/
def Statics.fresh : Statics := ⟨List.replicate md5Size NUL, false⟩

/-- The memory of the array and the byte behind it, where the last terminator goes. -/
def filled : Bytes := List.replicate md5Size NUL ++ [NUL]

/-- The array, and what the call leaves behind.  `ctx` is what the memory of the context holds before. -/
def firmwareMD5 (t : Md5.Target) (ctx : Md5.Ctx) (fs : FileSystem) (filename : Path) (s : Statics) :
    Outcome (Bytes × Statics) :=
  if s.cached then .returned (s.hash, s)
  else
    match fs filename with
    | none => .panicked (ascii "Unable to open firmware file")
    | some file =>
      (front file.content).bind fun _ =>
        (Md5.run t ctx [file.content]).bind fun digest =>
          let hash := (written filled (md5Loop 0 digest.1)).take md5Size
          .returned (hash, ⟨hash, true⟩)

/-- The digits of the digest of an image. -/
def imageHash (image : Bytes) : Bytes := Hex.text [] (Md5.Rfc.digest image)

theorem length_digest (message : Bytes) : (Md5.Rfc.digest message).length = 16 := by
  simp [Md5.Rfc.digest, Md5.Rfc.encode, Endian.length_little]

theorem length_imageHash (image : Bytes) : (imageHash image).length = md5Size := by
  rw [imageHash, Hex.length_text, length_digest]
  rfl

theorem written_md5Loop {buff : Bytes} (h : buff ≠ []) (mem : Bytes) :
    (written mem (md5Loop 0 buff)).take (Hex.text [] buff).length = Hex.text [] buff := by
  have hne : buff.map hex ≠ [] := fun hnil => h (List.map_eq_nil_iff.1 hnil)
  rw [written, md5Loop_eq, Nat.zero_mul, Patch.replay_chain NUL hne (Nat.zero_le _), List.take_zero, List.nil_append,
    Hex.text_nil]
  exact List.take_left

theorem run_image (t : Md5.Target) (ctx : Md5.Ctx) {image : Bytes} (hlong : image.length < 2 ^ t.longBits) :
    Md5.run t ctx [image] = .returned (Md5.Rfc.digest image, Md5.wiped) := by
  have hall : ∀ piece ∈ [image], piece.length < 2 ^ t.longBits := fun piece hpiece => List.mem_singleton.1 hpiece ▸ hlong
  obtain ⟨ctx', hupdates, habsorbed⟩ := Md5.updates_absorbed (Md5.init_absorbed ctx) hall
  rw [List.nil_append, List.flatten_singleton] at habsorbed
  rw [Md5.run, hupdates, Outcome.bind_returned, Md5.final_absorbed t habsorbed]

/-- The first call fills the array with the digest of the file. -/
theorem firmwareMD5_first (t : Md5.Target) (ctx : Md5.Ctx) {fs : FileSystem} {filename : Path} {s : Statics} {file : File}
    (hs : s.cached = false) (hfile : fs filename = some file) (hne : file.content ≠ [])
    (hlong : file.content.length < 2 ^ t.longBits) :
    firmwareMD5 t ctx fs filename s = .returned (imageHash file.content, ⟨imageHash file.content, true⟩) := by
  have hnot : ¬ s.cached = true := by simp [hs]
  have hdigest : Md5.Rfc.digest file.content ≠ [] := by
    intro hnil
    have hlength := length_digest file.content
    rw [hnil] at hlength
    cases hlength
  have hfront : ∃ c, front file.content = .returned c := by
    cases hcontent : file.content with
    | nil => exact absurd hcontent hne
    | cons c content => exact ⟨c, rfl⟩
  obtain ⟨c, hfront⟩ := hfront
  have hwritten : (written filled (md5Loop 0 (Md5.Rfc.digest file.content))).take md5Size = imageHash file.content := by
    rw [← length_imageHash file.content]
    exact written_md5Loop hdigest filled
  rw [firmwareMD5, if_neg hnot, hfile]
  dsimp only
  rw [hfront, Outcome.bind_returned, run_image t ctx hlong, Outcome.bind_returned, hwritten]

theorem firmwareMD5_cached (t : Md5.Target) (ctx : Md5.Ctx) (fs : FileSystem) (filename : Path) {s : Statics}
    (hs : s.cached = true) : firmwareMD5 t ctx fs filename s = .returned (s.hash, s) := by
  rw [firmwareMD5, if_pos hs]

end IopHal.Device
