import Mathlib.Data.Nat.Notation

/-!
# Rebuilding an image that is already stored

`probe_image` and `rebuild_stored_image` of `app/services/images.py` over the
operations of the image library. What the library raises is told apart by the
clause of the source that catches it. The delivery is built before the thumbnail
and does not know whether one has been asked for.
-/

namespace Broadcaster
namespace StoredImages

abbrev Body := List UInt8

structure Raised where
  name : String
  message : String
  deriving DecidableEq

/-- `f"{type(exc).__name__}: {exc}"` -/
def Raised.text (e : Raised) : String := e.name ++ ": " ++ e.message

inductive PilFailure
  | decompressionBomb (e : Raised)
  /-- `UnidentifiedImageError`, `OSError`, `SyntaxError` or `ValueError` -/
  | undecodable (e : Raised)
  | other (e : Raised)

def PilFailure.raised : PilFailure → Raised
  | .decompressionBomb e => e
  | .undecodable e => e
  | .other e => e

/-- What is used of the image library: `File` has been opened, `Image` has been decoded. -/
structure Pillow where
  File : Type
  Image : Type
  openFile : Body → Except PilFailure File
  format : File → Option String
  fileSize : File → ℕ × ℕ
  draft : File → ℕ → Except PilFailure File
  exifTranspose : File → Except PilFailure Image
  size : Image → ℕ × ℕ
  mode : Image → String
  bands : Image → List String
  /-- `"transparency" in image.info` -/
  transparency : Image → Bool
  convert : Image → String → Except PilFailure Image
  /-- `image.getchannel("A").getextrema()[0]` -/
  alphaMin : Image → Except PilFailure ℕ
  /-- a white background with the image pasted through its alpha channel -/
  pasteOnWhite : Image → Except PilFailure Image
  resize : Image → ℕ × ℕ → Except PilFailure Image
  /-- `save` with a quality for JPEG and without one for PNG -/
  save : Image → String → Option ℕ → Except PilFailure Body

inductive ImageError
  | tooLarge
  | unreadable
  | raised (e : Raised)

/-- The clauses of `probe_image` and of `rebuild_stored_image`. -/
def caught : PilFailure → ImageError
  | .decompressionBomb _ => .tooLarge
  | .undecodable _ => .unreadable
  | .other e => .raised e

def escaped (e : PilFailure) : ImageError := .raised e.raised

def maxDecodedPixels : ℕ := 30000000

def deliveryMaxEdge : ℕ := 1920

def deliveryJpegQuality : ℕ := 85

def thumbMaxEdge : ℕ := 480

def thumbJpegQuality : ℕ := 75

def supportedFormats : List String := ["JPEG","PNG"]

def contentTypeOf (format : String) : String := if format = "JPEG" then "image/jpeg" else "image/png"

structure ImageProbe where
  format : String
  width : ℕ
  height : ℕ

def ImageProbe.longEdge (p : ImageProbe) : ℕ := max p.width p.height

structure RebuiltImage where
  delivery : Option Body
  thumbnail : Option Body
  contentType : String

variable (pil : Pillow)

/-- What both functions do before they look at a pixel. -/
def openSupported (content : Body) : Except ImageError (pil.File × ImageProbe) :=
  match pil.openFile content with
  | .error e => .error (caught e)
  | .ok opened =>
    match pil.format opened with
    | none => .error .unreadable
    | some format =>
      if format ∉ supportedFormats then .error .unreadable
      else
        let (width,height) := pil.fileSize opened
        if maxDecodedPixels < width*height then .error .tooLarge
        else .ok (opened,⟨format,width,height⟩)

def probeImage (header : Body) : Except ImageError ImageProbe := (openSupported pil header).map Prod.snd

def hasRealAlpha (image : pil.Image) : Except PilFailure Bool := do
  if pil.mode image = "P" then
    if pil.transparency image then
      return decide ((← pil.alphaMin (← pil.convert image "RGBA")) < 255)
    else return false
  else if "A" ∈ pil.bands image then return decide ((← pil.alphaMin image) < 255)
  else return false

def normaliseMode (image : pil.Image) (keepsAlpha : Bool) : Except PilFailure pil.Image := do
  if keepsAlpha then
    if pil.mode image = "RGBA" then return image else pil.convert image "RGBA"
  else if "A" ∈ pil.bands image ∨ pil.mode image = "P" ∧ pil.transparency image = true then
    pil.pasteOnWhite (← pil.convert image "RGBA")
  else if pil.mode image ∈ ["RGB","L"] then return image
  else pil.convert image "RGB"

/-- `round(a / b)`: halves go to the even number. -/
def roundDiv (a b : ℕ) : ℕ :=
  let q := a/b
  let r := 2*(a%b)
  if r < b ∨ r = b ∧ q%2 = 0 then q else q+1

def fitLongEdge (image : pil.Image) (maxEdge : ℕ) : Except PilFailure pil.Image :=
  let (width,height) := pil.size image
  if max width height ≤ maxEdge then .ok image
  else if height ≤ width then pil.resize image (maxEdge,max 1 (roundDiv (height*maxEdge) width))
  else pil.resize image (max 1 (roundDiv (width*maxEdge) height),maxEdge)

def encode (image : pil.Image) (format : String) (quality : ℕ) : Except PilFailure Body :=
  if format = "JPEG" then pil.save image format (some quality) else pil.save image format none

/-- A JPEG is told the size that is going to be needed before it is decoded. -/
def drafted (opened : pil.File) (format : String) (resize : Bool) : Except PilFailure pil.File :=
  if format = "JPEG" then pil.draft opened (if resize then deliveryMaxEdge else thumbMaxEdge) else .ok opened

/-- The `try` of `rebuild_stored_image`: the format and the decoded image. -/
def decode (content : Body) (resize : Bool) : Except ImageError (String × pil.Image) := do
  let (opened,probe) ← openSupported pil content
  let opened ← (drafted pil opened probe.format resize).mapError caught
  let image ← (pil.exifTranspose opened).mapError caught
  return (probe.format,image)

/-- `source_format == _PNG and _has_real_alpha(image)` -/
def keepsAlpha (format : String) (image : pil.Image) : Except PilFailure Bool :=
  if format = "PNG" then hasRealAlpha pil image else .ok false

/-- The image to be delivered, and its bytes when a new size has been asked for. -/
def deliver (content : Body) (resize : Bool) : Except ImageError (String × pil.Image × Option Body) := do
  let (format,image) ← decode pil content resize
  let keepsAlpha ← (keepsAlpha pil format image).mapError escaped
  let image ← (normaliseMode pil image keepsAlpha).mapError escaped
  if resize then
    let deliveryImage ← (fitLongEdge pil image deliveryMaxEdge).mapError escaped
    let delivery ← (encode pil deliveryImage format deliveryJpegQuality).mapError escaped
    return (format,deliveryImage,some delivery)
  else return (format,image,none)

def rebuildStoredImage (content : Body) (resize thumbnail : Bool) : Except ImageError RebuiltImage := do
  let (format,deliveryImage,delivery) ← deliver pil content resize
  if thumbnail then
    let thumbnailImage ← (fitLongEdge pil deliveryImage thumbMaxEdge).mapError escaped
    let bytes ← (encode pil thumbnailImage format thumbJpegQuality).mapError escaped
    return ⟨delivery,some bytes,contentTypeOf format⟩
  else return ⟨delivery,none,contentTypeOf format⟩

variable {pil} {content : Body} {resize thumbnail : Bool} {rebuilt : RebuiltImage}

theorem bind_eq_ok {α β ε : Type} {x : Except ε α} {f : α → Except ε β} {b : β} :
    x >>= f = .ok b ↔ ∃ a, x = .ok a ∧ f a = .ok b := by
  cases x with
  | error e => simp [bind,Except.bind]
  | ok a => simp [bind,Except.bind]

theorem deliver_isSome {out : String × pil.Image × Option Body} (h : deliver pil content resize = .ok out) :
    out.2.2.isSome = resize := by
  unfold deliver at h
  obtain ⟨decoded,_,h⟩ := bind_eq_ok.mp h
  obtain ⟨keepsAlpha,_,h⟩ := bind_eq_ok.mp h
  obtain ⟨image,_,h⟩ := bind_eq_ok.mp h
  cases resize with
  | false =>
    cases h
    rfl
  | true =>
    obtain ⟨deliveryImage,_,h⟩ := bind_eq_ok.mp h
    obtain ⟨delivery,_,h⟩ := bind_eq_ok.mp h
    cases h
    rfl

theorem rebuild_split (h : rebuildStoredImage pil content resize thumbnail = .ok rebuilt) :
    ∃ out, deliver pil content resize = .ok out ∧ rebuilt.delivery = out.2.2 ∧
      rebuilt.thumbnail.isSome = thumbnail := by
  unfold rebuildStoredImage at h
  obtain ⟨out,hout,h⟩ := bind_eq_ok.mp h
  refine ⟨out,hout,?_⟩
  cases thumbnail with
  | false =>
    cases h
    exact ⟨rfl,rfl⟩
  | true =>
    obtain ⟨thumbnailImage,_,h⟩ := bind_eq_ok.mp h
    obtain ⟨bytes,_,h⟩ := bind_eq_ok.mp h
    cases h
    exact ⟨rfl,rfl⟩

theorem rebuild_delivery_isSome (h : rebuildStoredImage pil content resize thumbnail = .ok rebuilt) :
    rebuilt.delivery.isSome = resize := by
  obtain ⟨out,hout,hdelivery,_⟩ := rebuild_split h
  rw [hdelivery,deliver_isSome hout]

theorem rebuild_thumbnail_isSome (h : rebuildStoredImage pil content resize thumbnail = .ok rebuilt) :
    rebuilt.thumbnail.isSome = thumbnail := by
  obtain ⟨_,_,_,hthumbnail⟩ := rebuild_split h
  exact hthumbnail

theorem rebuild_without_thumbnail (h : rebuildStoredImage pil content resize thumbnail = .ok rebuilt) :
    ∃ rebuilt', rebuildStoredImage pil content resize false = .ok rebuilt' ∧
      rebuilt'.delivery = rebuilt.delivery := by
  obtain ⟨out,hout,hdelivery,_⟩ := rebuild_split h
  refine ⟨⟨out.2.2,none,contentTypeOf out.1⟩,?_,hdelivery.symm⟩
  unfold rebuildStoredImage
  rw [bind_eq_ok]
  exact ⟨out,hout,rfl⟩

end StoredImages
end Broadcaster
