import Mathlib

/-! `Path::file_name` and `Path::extension`, and file extensions for MIME types. -/
namespace PlainRs.Utils

/-- The last component of a path; `.` is no component, and `..` is no name. -/
def fileName (path : String) : Option String :=
  ((path.toList.splitOn '/').filter fun c => c ≠ [] ∧ c ≠ ['.']).getLast?.bind fun c =>
    if c = ['.', '.'] then none else some (String.ofList c)

/-- What is before and after the last dot, if there is one. -/
def splitAtLastDot (name : String) : Option (String × String) :=
  let cs := name.toList.reverse
  match cs.dropWhile (· ≠ '.') with
  | [] => none
  | _ :: before => some (String.ofList before.reverse, String.ofList (cs.takeWhile (· ≠ '.')).reverse)

/-- A name that only begins with a dot has no extension. -/
def extension (path : String) : Option String :=
  ((fileName path).bind splitAtLastDot).bind fun (before, after) =>
    if before = "" then none else some after

def mimeExtensions : List (String × String) :=
  [("image/jpeg", "jpg"), ("image/png", "png"), ("image/gif", "gif"), ("image/webp", "webp"),
    ("image/svg+xml", "svg"), ("image/bmp", "bmp"), ("image/tiff", "tif"), ("image/heic", "heic"),
    ("image/avif", "avif"), ("image/x-icon", "ico"), ("image/vnd.microsoft.icon", "ico"),
    ("video/mp4", "mp4"), ("video/webm", "webm"), ("video/quicktime", "mov"),
    ("video/x-matroska", "mkv"), ("video/3gpp", "3gp"), ("video/3gpp2", "3gp"),
    ("video/x-msvideo", "avi"), ("video/ogg", "ogv"), ("video/mp2t", "ts"), ("audio/mpeg", "mp3"),
    ("audio/mp4", "m4a"), ("audio/wav", "wav"), ("audio/x-wav", "wav"), ("audio/ogg", "ogg"),
    ("audio/flac", "flac"), ("audio/opus", "opus"), ("audio/aac", "aac"), ("application/pdf", "pdf"),
    ("application/msword", "doc"),
    ("application/vnd.openxmlformats-officedocument.wordprocessingml.document", "docx"),
    ("application/vnd.openxmlformats-officedocument.spreadsheetml.sheet", "xlsx"),
    ("application/zip", "zip"), ("application/x-zip-compressed", "zip"), ("application/json", "json"),
    ("application/xml", "xml"), ("text/xml", "xml"), ("application/x-rar-compressed", "rar"),
    ("application/vnd.rar", "rar"), ("application/x-7z-compressed", "7z"),
    ("application/x-tar", "tar"), ("application/gzip", "gz"), ("application/x-gzip", "gz"),
    ("application/x-bzip2", "bz2"), ("application/x-xz", "xz"),
    ("application/vnd.android.package-archive", "apk"), ("text/plain", "txt"), ("text/html", "html"),
    ("text/css", "css"), ("application/javascript", "js"), ("text/csv", "csv"),
    ("text/tab-separated-values", "tsv"), ("text/markdown", "md"), ("font/ttf", "ttf"),
    ("application/x-font-ttf", "ttf"), ("font/otf", "otf"), ("font/woff", "woff"),
    ("font/woff2", "woff2")]

def toAsciiLowercase (s : String) : String := String.ofList (s.toList.map Char.toLower)

/-- `mime_extension`; an unknown type is `bin`. -/
def mimeExtension (mime : String) : String :=
  ((mimeExtensions.find? fun p => p.1 = toAsciiLowercase mime).map Prod.snd).getD "bin"

end PlainRs.Utils
