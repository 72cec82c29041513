import AsioExamples.Http.Request
import AsioExamples.Http.RequestHead
import AsioExamples.Theory.Decimal

/-! `reply`: the replies of the HTTP servers, which hold the same code in three namespaces. -/

namespace AsioExamples.Http

set_option autoImplicit false

/-- `reply::status_type`. `other` is any value that is not named; a status nobody has set may
be one, and the switches over the type have a default for it. -/
inductive StatusType where
  | ok
  | created
  | accepted
  | noContent
  | multipleChoices
  | movedPermanently
  | movedTemporarily
  | notModified
  | badRequest
  | unauthorized
  | forbidden
  | notFound
  | internalServerError
  | notImplemented
  | badGateway
  | serviceUnavailable
  | other (value : Nat)
deriving DecidableEq, Repr

def StatusType.code : StatusType → Nat
  | .ok => 200
  | .created => 201
  | .accepted => 202
  | .noContent => 204
  | .multipleChoices => 300
  | .movedPermanently => 301
  | .movedTemporarily => 302
  | .notModified => 304
  | .badRequest => 400
  | .unauthorized => 401
  | .forbidden => 403
  | .notFound => 404
  | .internalServerError => 500
  | .notImplemented => 501
  | .badGateway => 502
  | .serviceUnavailable => 503
  | .other value => value

namespace StatusStrings

def toBuffer : StatusType → Bytes
  | .ok => str "HTTP/1.0 200 OK\r\n"
  | .created => str "HTTP/1.0 201 Created\r\n"
  | .accepted => str "HTTP/1.0 202 Accepted\r\n"
  | .noContent => str "HTTP/1.0 204 No Content\r\n"
  | .multipleChoices => str "HTTP/1.0 300 Multiple Choices\r\n"
  | .movedPermanently => str "HTTP/1.0 301 Moved Permanently\r\n"
  | .movedTemporarily => str "HTTP/1.0 302 Moved Temporarily\r\n"
  | .notModified => str "HTTP/1.0 304 Not Modified\r\n"
  | .badRequest => str "HTTP/1.0 400 Bad Request\r\n"
  | .unauthorized => str "HTTP/1.0 401 Unauthorized\r\n"
  | .forbidden => str "HTTP/1.0 403 Forbidden\r\n"
  | .notFound => str "HTTP/1.0 404 Not Found\r\n"
  | .internalServerError => str "HTTP/1.0 500 Internal Server Error\r\n"
  | .notImplemented => str "HTTP/1.0 501 Not Implemented\r\n"
  | .badGateway => str "HTTP/1.0 502 Bad Gateway\r\n"
  | .serviceUnavailable => str "HTTP/1.0 503 Service Unavailable\r\n"
  | .other _ => str "HTTP/1.0 500 Internal Server Error\r\n"

end StatusStrings

namespace StockReplies

def toString : StatusType → Bytes
  | .ok => str ""
  | .created =>
    str "<html><head><title>Created</title></head><body><h1>201 Created</h1></body></html>"
  | .accepted =>
    str "<html><head><title>Accepted</title></head><body><h1>202 Accepted</h1></body></html>"
  | .noContent =>
    str "<html><head><title>No Content</title></head><body><h1>204 Content</h1></body></html>"
  | .multipleChoices =>
    str "<html><head><title>Multiple Choices</title></head>" ++
      str "<body><h1>300 Multiple Choices</h1></body></html>"
  | .movedPermanently =>
    str "<html><head><title>Moved Permanently</title></head>" ++
      str "<body><h1>301 Moved Permanently</h1></body></html>"
  | .movedTemporarily =>
    str "<html><head><title>Moved Temporarily</title></head>" ++
      str "<body><h1>302 Moved Temporarily</h1></body></html>"
  | .notModified =>
    str "<html><head><title>Not Modified</title></head>" ++
      str "<body><h1>304 Not Modified</h1></body></html>"
  | .badRequest =>
    str "<html><head><title>Bad Request</title></head>" ++
      str "<body><h1>400 Bad Request</h1></body></html>"
  | .unauthorized =>
    str "<html><head><title>Unauthorized</title></head>" ++
      str "<body><h1>401 Unauthorized</h1></body></html>"
  | .forbidden =>
    str "<html><head><title>Forbidden</title></head><body><h1>403 Forbidden</h1></body></html>"
  | .notFound =>
    str "<html><head><title>Not Found</title></head><body><h1>404 Not Found</h1></body></html>"
  | .notImplemented =>
    str "<html><head><title>Not Implemented</title></head>" ++
      str "<body><h1>501 Not Implemented</h1></body></html>"
  | .badGateway =>
    str "<html><head><title>Bad Gateway</title></head>" ++
      str "<body><h1>502 Bad Gateway</h1></body></html>"
  | .serviceUnavailable =>
    str "<html><head><title>Service Unavailable</title></head>" ++
      str "<body><h1>503 Service Unavailable</h1></body></html>"
  | .internalServerError | .other _ =>
    str "<html><head><title>Internal Server Error</title></head>" ++
      str "<body><h1>500 Internal Server Error</h1></body></html>"

end StockReplies

structure Reply where
  status : StatusType
  headers : List Header
  content : Bytes
deriving DecidableEq, Repr

/-- A default-constructed reply: no headers, no content and a status that is not set. -/
def Reply.fresh (value : Nat) : Reply := ⟨.other value, [], []⟩

namespace MiscStrings

def nameValueSeparator : Bytes := [chr ':', chr ' ']

end MiscStrings

/-- The buffers of a reply in the order in which they are written. -/
def Reply.toBuffers (rep : Reply) : List Bytes :=
  [StatusStrings.toBuffer rep.status] ++
    rep.headers.flatMap (fun h => [h.name, MiscStrings.nameValueSeparator, h.value, crlf]) ++
    [crlf, rep.content]

/-- The two headers that every reply gets; the vector is resized to them. -/
def contentHeaders (content contentType : Bytes) : List Header :=
  [⟨str "Content-Length", Decimal.decimal content.length⟩, ⟨str "Content-Type", contentType⟩]

def Reply.stockReply (status : StatusType) : Reply :=
  let content := StockReplies.toString status
  ⟨status, contentHeaders content (str "text/html"), content⟩

namespace MimeTypes

structure Mapping where
  extension : Bytes
  mimeType : Bytes

def mappings : List Mapping :=
  [⟨str "gif", str "image/gif"⟩, ⟨str "htm", str "text/html"⟩, ⟨str "html", str "text/html"⟩,
    ⟨str "jpg", str "image/jpeg"⟩, ⟨str "png", str "image/png"⟩]

def extensionToType (extension : Bytes) : Bytes :=
  match mappings.find? fun m => m.extension == extension with
  | some m => m.mimeType
  | none => str "text/plain"

end MimeTypes

end AsioExamples.Http
