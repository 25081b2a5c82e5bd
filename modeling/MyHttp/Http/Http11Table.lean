import MyHttp.Lib.Scan

/-! The machine of requests (`http11_parser.rl` as compiled). The rows of the table are the cases of the compiled
    machine. -/

namespace MyHttp
namespace Http

open Lib.Scan

/-- The actions of the machine; `start_value` is `mark`. -/
inductive RequestAction where
  | mark
  | startField
  | writeField
  | writeValue
  | requestMethod
  | requestUri
  | fragment
  | startQuery
  | queryString
  | httpVersion
  | requestPath
  | xml
  | json
  | done
deriving DecidableEq, Repr

namespace Http11

def digit : CharClass := [(48, 57)]

def methodChar : CharClass := [(48, 57), (65, 90)]

def xdigit : CharClass := [(48, 57), (65, 70), (97, 102)]

def pathChar : CharClass := [(33, 33), (36, 57), (59, 59), (61, 61), (64, 90), (95, 95), (97, 122), (126, 126)]

def hostChar : CharClass := [(33, 33), (36, 46), (48, 59), (61, 61), (65, 90), (95, 95), (97, 122), (126, 126)]

def literalChar : CharClass := [(33, 33), (36, 36), (38, 46), (48, 59), (61, 61), (65, 90), (95, 95), (97, 122), (126, 126)]

def uriChar : CharClass := [(33, 33), (36, 59), (61, 61), (63, 90), (95, 95), (97, 122), (126, 126)]

def fieldChar : CharClass :=
  [(1, 8), (10, 31), (33, 33), (35, 39), (42, 43), (45, 46), (48, 57), (65, 90), (94, 122), (124, 124), (126, 126)]

def valueChar : CharClass := [(1, 126), (128, 255)]

/-- `more_delims`, when `uri_relaxed` is set. -/
def more (relaxed : Bool) (k : CharClass) : CharClass := if relaxed then [(94, 94), (123, 123), (125, 125)] ++ k else k

/-- The states with their edges. State 0 is the error; 348 and 349 are final. -/
def table (relaxed : Bool) : Table RequestAction :=
  [(1, [⟨byte 60, 194, [.mark]⟩, ⟨byte 64, 198, [.mark]⟩, ⟨methodChar, 2, [.mark]⟩]),
  (2, [⟨byte 32, 3, [.requestMethod]⟩, ⟨methodChar, 175, []⟩]),
  (3, [⟨byte 32, 4, [.mark, .requestPath, .requestUri]⟩, ⟨byte 35, 20, [.mark, .requestPath, .requestUri]⟩,
    ⟨byte 37, 24, [.mark]⟩, ⟨byte 47, 33, [.mark]⟩, ⟨byte 63, 29, [.mark, .requestPath]⟩,
    ⟨more relaxed [(33, 33), (36, 57), (59, 59), (61, 61), (64, 64), (95, 95), (126, 126)], 19, [.mark]⟩,
    ⟨pathChar, 173, [.mark]⟩]),
  (4, [⟨byte 72, 5, [.mark]⟩]),
  (5, [⟨byte 84, 6, []⟩]),
  (6, [⟨byte 84, 7, []⟩]),
  (7, [⟨byte 80, 8, []⟩]),
  (8, [⟨byte 47, 9, []⟩]),
  (9, [⟨byte 49, 10, []⟩]),
  (10, [⟨byte 46, 11, []⟩]),
  (11, [⟨[(48, 49)], 12, []⟩]),
  (12, [⟨byte 10, 13, [.httpVersion]⟩, ⟨byte 13, 17, [.httpVersion]⟩]),
  (13, [⟨byte 10, 348, [.startField, .done]⟩, ⟨byte 13, 18, [.startField]⟩, ⟨fieldChar, 14, [.startField]⟩]),
  (14, [⟨byte 58, 15, [.writeField]⟩, ⟨fieldChar, 14, []⟩]),
  (15, [⟨byte 10, 13, [.mark, .writeValue]⟩, ⟨byte 13, 17, [.mark, .writeValue]⟩, ⟨[(9, 9), (32, 32)], 15, [.mark]⟩,
    ⟨valueChar, 16, [.mark]⟩]),
  (16, [⟨byte 10, 13, [.writeValue]⟩, ⟨byte 13, 17, [.writeValue]⟩, ⟨valueChar, 16, []⟩]),
  (17, [⟨byte 10, 13, []⟩]),
  (18, [⟨byte 10, 348, [.done]⟩, ⟨byte 58, 15, [.writeField]⟩, ⟨fieldChar, 14, []⟩]),
  (19, [⟨byte 32, 4, [.requestPath, .requestUri]⟩, ⟨byte 35, 20, [.requestPath, .requestUri]⟩, ⟨byte 37, 24, []⟩,
    ⟨byte 47, 26, []⟩, ⟨byte 63, 29, [.requestPath]⟩, ⟨more relaxed pathChar, 19, []⟩]),
  (20, [⟨byte 32, 4, [.mark, .fragment]⟩, ⟨byte 37, 22, [.mark]⟩, ⟨more relaxed uriChar, 21, [.mark]⟩]),
  (21, [⟨byte 32, 4, [.fragment]⟩, ⟨byte 37, 22, []⟩, ⟨more relaxed uriChar, 21, []⟩]),
  (22, [⟨xdigit, 23, []⟩]),
  (23, [⟨xdigit, 21, []⟩]),
  (24, [⟨xdigit, 25, []⟩]),
  (25, [⟨xdigit, 19, []⟩]),
  (26, [⟨byte 32, 4, [.requestPath, .requestUri]⟩, ⟨byte 35, 20, [.requestPath, .requestUri]⟩, ⟨byte 37, 27, []⟩,
    ⟨byte 63, 29, [.requestPath]⟩, ⟨more relaxed uriChar, 26, []⟩]),
  (27, [⟨xdigit, 28, []⟩]),
  (28, [⟨xdigit, 26, []⟩]),
  (29, [⟨byte 32, 4, [.startQuery, .queryString, .requestUri]⟩,
    ⟨byte 35, 20, [.startQuery, .queryString, .requestUri]⟩, ⟨byte 37, 31, [.startQuery]⟩,
    ⟨more relaxed uriChar, 30, [.startQuery]⟩]),
  (30, [⟨byte 32, 4, [.queryString, .requestUri]⟩, ⟨byte 35, 20, [.queryString, .requestUri]⟩, ⟨byte 37, 31, []⟩,
    ⟨more relaxed uriChar, 30, []⟩]),
  (31, [⟨xdigit, 32, []⟩]),
  (32, [⟨xdigit, 30, []⟩]),
  (33, [⟨byte 32, 4, [.requestPath, .requestUri]⟩, ⟨byte 35, 20, [.requestPath, .requestUri]⟩, ⟨byte 37, 27, []⟩,
    ⟨byte 47, 34, []⟩, ⟨byte 63, 29, [.requestPath]⟩, ⟨more relaxed uriChar, 26, []⟩]),
  (34, [⟨byte 32, 4, [.requestPath, .requestUri]⟩, ⟨byte 35, 20, [.requestPath, .requestUri]⟩, ⟨byte 37, 36, []⟩,
    ⟨byte 47, 26, []⟩, ⟨byte 58, 38, []⟩, ⟨byte 63, 29, [.requestPath]⟩, ⟨byte 64, 42, []⟩, ⟨byte 91, 47, []⟩,
    ⟨more relaxed pathChar, 35, []⟩]),
  (35, [⟨byte 32, 4, [.requestPath, .requestUri]⟩, ⟨byte 35, 20, [.requestPath, .requestUri]⟩, ⟨byte 37, 36, []⟩,
    ⟨byte 47, 26, []⟩, ⟨byte 58, 38, []⟩, ⟨byte 63, 29, [.requestPath]⟩, ⟨byte 64, 42, []⟩,
    ⟨more relaxed pathChar, 35, []⟩]),
  (36, [⟨xdigit, 37, []⟩]),
  (37, [⟨xdigit, 35, []⟩]),
  (38, [⟨byte 32, 4, [.requestPath, .requestUri]⟩, ⟨byte 35, 20, [.requestPath, .requestUri]⟩, ⟨byte 37, 40, []⟩,
    ⟨byte 47, 26, []⟩, ⟨byte 63, 29, [.requestPath]⟩, ⟨byte 64, 42, []⟩, ⟨digit, 38, []⟩,
    ⟨more relaxed hostChar, 39, []⟩]),
  (39, [⟨byte 37, 40, []⟩, ⟨byte 64, 42, []⟩, ⟨more relaxed hostChar, 39, []⟩]),
  (40, [⟨xdigit, 41, []⟩]),
  (41, [⟨xdigit, 39, []⟩]),
  (42, [⟨byte 32, 4, [.requestPath, .requestUri]⟩, ⟨byte 35, 20, [.requestPath, .requestUri]⟩, ⟨byte 37, 44, []⟩,
    ⟨byte 47, 26, []⟩, ⟨byte 58, 46, []⟩, ⟨byte 63, 29, [.requestPath]⟩, ⟨byte 91, 47, []⟩,
    ⟨more relaxed hostChar, 43, []⟩]),
  (43, [⟨byte 32, 4, [.requestPath, .requestUri]⟩, ⟨byte 35, 20, [.requestPath, .requestUri]⟩, ⟨byte 37, 44, []⟩,
    ⟨byte 47, 26, []⟩, ⟨byte 58, 46, []⟩, ⟨byte 63, 29, [.requestPath]⟩, ⟨more relaxed hostChar, 43, []⟩]),
  (44, [⟨xdigit, 45, []⟩]),
  (45, [⟨xdigit, 43, []⟩]),
  (46, [⟨byte 32, 4, [.requestPath, .requestUri]⟩, ⟨byte 35, 20, [.requestPath, .requestUri]⟩, ⟨byte 47, 26, []⟩,
    ⟨byte 63, 29, [.requestPath]⟩, ⟨digit, 46, []⟩]),
  (47, [⟨byte 6, 48, []⟩, ⟨byte 58, 167, []⟩, ⟨byte 118, 169, []⟩, ⟨xdigit, 91, []⟩]),
  (48, [⟨xdigit, 49, []⟩]),
  (49, [⟨byte 58, 53, []⟩, ⟨xdigit, 50, []⟩]),
  (50, [⟨byte 58, 53, []⟩, ⟨xdigit, 51, []⟩]),
  (51, [⟨byte 58, 53, []⟩, ⟨xdigit, 52, []⟩]),
  (52, [⟨byte 58, 53, []⟩]),
  (53, [⟨byte 49, 84, []⟩, ⟨byte 50, 87, []⟩, ⟨digit, 54, []⟩, ⟨xdigit, 90, []⟩]),
  (54, [⟨byte 46, 55, []⟩, ⟨byte 58, 80, []⟩, ⟨xdigit, 77, []⟩]),
  (55, [⟨byte 49, 72, []⟩, ⟨byte 50, 74, []⟩, ⟨digit, 56, []⟩]),
  (56, [⟨byte 46, 57, []⟩]),
  (57, [⟨byte 49, 67, []⟩, ⟨byte 50, 69, []⟩, ⟨digit, 58, []⟩]),
  (58, [⟨byte 46, 59, []⟩]),
  (59, [⟨byte 49, 62, []⟩, ⟨byte 50, 64, []⟩, ⟨digit, 60, []⟩]),
  (60, [⟨byte 93, 61, []⟩]),
  (61, [⟨byte 32, 4, [.requestPath, .requestUri]⟩, ⟨byte 35, 20, [.requestPath, .requestUri]⟩, ⟨byte 47, 26, []⟩,
    ⟨byte 58, 46, []⟩, ⟨byte 63, 29, [.requestPath]⟩]),
  (62, [⟨byte 93, 61, []⟩, ⟨digit, 63, []⟩]),
  (63, [⟨byte 93, 61, []⟩, ⟨digit, 60, []⟩]),
  (64, [⟨byte 48, 65, []⟩, ⟨byte 53, 66, []⟩, ⟨byte 93, 61, []⟩]),
  (65, [⟨digit, 60, []⟩]),
  (66, [⟨byte 48, 60, []⟩]),
  (67, [⟨byte 46, 59, []⟩, ⟨digit, 68, []⟩]),
  (68, [⟨byte 46, 59, []⟩, ⟨digit, 58, []⟩]),
  (69, [⟨byte 46, 59, []⟩, ⟨byte 48, 70, []⟩, ⟨byte 53, 71, []⟩]),
  (70, [⟨digit, 58, []⟩]),
  (71, [⟨byte 48, 58, []⟩]),
  (72, [⟨byte 46, 57, []⟩, ⟨digit, 73, []⟩]),
  (73, [⟨byte 46, 57, []⟩, ⟨digit, 56, []⟩]),
  (74, [⟨byte 46, 57, []⟩, ⟨byte 48, 75, []⟩, ⟨byte 53, 76, []⟩]),
  (75, [⟨digit, 56, []⟩]),
  (76, [⟨byte 48, 56, []⟩]),
  (77, [⟨byte 58, 80, []⟩, ⟨xdigit, 78, []⟩]),
  (78, [⟨byte 58, 80, []⟩, ⟨xdigit, 79, []⟩]),
  (79, [⟨byte 58, 80, []⟩]),
  (80, [⟨xdigit, 81, []⟩]),
  (81, [⟨byte 93, 61, []⟩, ⟨xdigit, 82, []⟩]),
  (82, [⟨byte 93, 61, []⟩, ⟨xdigit, 83, []⟩]),
  (83, [⟨byte 93, 61, []⟩, ⟨xdigit, 60, []⟩]),
  (84, [⟨byte 46, 55, []⟩, ⟨byte 58, 80, []⟩, ⟨digit, 85, []⟩, ⟨xdigit, 77, []⟩]),
  (85, [⟨byte 46, 55, []⟩, ⟨byte 58, 80, []⟩, ⟨digit, 86, []⟩, ⟨xdigit, 78, []⟩]),
  (86, [⟨byte 46, 55, []⟩, ⟨byte 58, 80, []⟩, ⟨xdigit, 79, []⟩]),
  (87, [⟨byte 46, 55, []⟩, ⟨byte 48, 88, []⟩, ⟨byte 53, 89, []⟩, ⟨byte 58, 80, []⟩, ⟨xdigit, 77, []⟩]),
  (88, [⟨byte 58, 80, []⟩, ⟨digit, 86, []⟩, ⟨xdigit, 78, []⟩]),
  (89, [⟨byte 48, 86, []⟩, ⟨byte 58, 80, []⟩, ⟨xdigit, 78, []⟩]),
  (90, [⟨byte 58, 80, []⟩, ⟨xdigit, 77, []⟩]),
  (91, [⟨byte 58, 95, []⟩, ⟨xdigit, 92, []⟩]),
  (92, [⟨byte 58, 95, []⟩, ⟨xdigit, 93, []⟩]),
  (93, [⟨byte 58, 95, []⟩, ⟨xdigit, 94, []⟩]),
  (94, [⟨byte 58, 95, []⟩]),
  (95, [⟨byte 58, 166, []⟩, ⟨xdigit, 96, []⟩]),
  (96, [⟨byte 58, 100, []⟩, ⟨xdigit, 97, []⟩]),
  (97, [⟨byte 58, 100, []⟩, ⟨xdigit, 98, []⟩]),
  (98, [⟨byte 58, 100, []⟩, ⟨xdigit, 99, []⟩]),
  (99, [⟨byte 58, 100, []⟩]),
  (100, [⟨byte 58, 165, []⟩, ⟨xdigit, 101, []⟩]),
  (101, [⟨byte 58, 105, []⟩, ⟨xdigit, 102, []⟩]),
  (102, [⟨byte 58, 105, []⟩, ⟨xdigit, 103, []⟩]),
  (103, [⟨byte 58, 105, []⟩, ⟨xdigit, 104, []⟩]),
  (104, [⟨byte 58, 105, []⟩]),
  (105, [⟨byte 58, 164, []⟩, ⟨xdigit, 106, []⟩]),
  (106, [⟨byte 58, 110, []⟩, ⟨xdigit, 107, []⟩]),
  (107, [⟨byte 58, 110, []⟩, ⟨xdigit, 108, []⟩]),
  (108, [⟨byte 58, 110, []⟩, ⟨xdigit, 109, []⟩]),
  (109, [⟨byte 58, 110, []⟩]),
  (110, [⟨byte 58, 163, []⟩, ⟨xdigit, 111, []⟩]),
  (111, [⟨byte 58, 115, []⟩, ⟨xdigit, 112, []⟩]),
  (112, [⟨byte 58, 115, []⟩, ⟨xdigit, 113, []⟩]),
  (113, [⟨byte 58, 115, []⟩, ⟨xdigit, 114, []⟩]),
  (114, [⟨byte 58, 115, []⟩]),
  (115, [⟨byte 58, 151, []⟩, ⟨xdigit, 116, []⟩]),
  (116, [⟨byte 58, 120, []⟩, ⟨xdigit, 117, []⟩]),
  (117, [⟨byte 58, 120, []⟩, ⟨xdigit, 118, []⟩]),
  (118, [⟨byte 58, 120, []⟩, ⟨xdigit, 119, []⟩]),
  (119, [⟨byte 58, 120, []⟩]),
  (120, [⟨byte 58, 150, []⟩, ⟨xdigit, 121, []⟩]),
  (121, [⟨byte 58, 125, []⟩, ⟨xdigit, 122, []⟩]),
  (122, [⟨byte 58, 125, []⟩, ⟨xdigit, 123, []⟩]),
  (123, [⟨byte 58, 125, []⟩, ⟨xdigit, 124, []⟩]),
  (124, [⟨byte 58, 125, []⟩]),
  (125, [⟨byte 58, 126, []⟩, ⟨xdigit, 121, []⟩]),
  (126, [⟨byte 49, 143, []⟩, ⟨byte 50, 146, []⟩, ⟨byte 93, 61, []⟩, ⟨[(2, 3)], 48, []⟩, ⟨digit, 127, []⟩,
    ⟨xdigit, 149, []⟩]),
  (127, [⟨byte 46, 55, []⟩, ⟨byte 58, 131, []⟩, ⟨byte 93, 61, []⟩, ⟨xdigit, 128, []⟩]),
  (128, [⟨byte 58, 131, []⟩, ⟨byte 93, 61, []⟩, ⟨xdigit, 129, []⟩]),
  (129, [⟨byte 58, 131, []⟩, ⟨byte 93, 61, []⟩, ⟨xdigit, 130, []⟩]),
  (130, [⟨byte 58, 131, []⟩, ⟨byte 93, 61, []⟩]),
  (131, [⟨byte 49, 136, []⟩, ⟨byte 50, 139, []⟩, ⟨digit, 132, []⟩, ⟨xdigit, 142, []⟩]),
  (132, [⟨byte 46, 55, []⟩, ⟨byte 58, 80, []⟩, ⟨byte 93, 61, []⟩, ⟨xdigit, 133, []⟩]),
  (133, [⟨byte 58, 80, []⟩, ⟨byte 93, 61, []⟩, ⟨xdigit, 134, []⟩]),
  (134, [⟨byte 58, 80, []⟩, ⟨byte 93, 61, []⟩, ⟨xdigit, 135, []⟩]),
  (135, [⟨byte 58, 80, []⟩, ⟨byte 93, 61, []⟩]),
  (136, [⟨byte 46, 55, []⟩, ⟨byte 58, 80, []⟩, ⟨byte 93, 61, []⟩, ⟨digit, 137, []⟩, ⟨xdigit, 133, []⟩]),
  (137, [⟨byte 46, 55, []⟩, ⟨byte 58, 80, []⟩, ⟨byte 93, 61, []⟩, ⟨digit, 138, []⟩, ⟨xdigit, 134, []⟩]),
  (138, [⟨byte 46, 55, []⟩, ⟨byte 58, 80, []⟩, ⟨byte 93, 61, []⟩, ⟨xdigit, 135, []⟩]),
  (139, [⟨byte 46, 55, []⟩, ⟨byte 48, 140, []⟩, ⟨byte 53, 141, []⟩, ⟨byte 58, 80, []⟩, ⟨byte 93, 61, []⟩,
    ⟨xdigit, 133, []⟩]),
  (140, [⟨byte 58, 80, []⟩, ⟨byte 93, 61, []⟩, ⟨digit, 138, []⟩, ⟨xdigit, 134, []⟩]),
  (141, [⟨byte 48, 138, []⟩, ⟨byte 58, 80, []⟩, ⟨byte 93, 61, []⟩, ⟨xdigit, 134, []⟩]),
  (142, [⟨byte 58, 80, []⟩, ⟨byte 93, 61, []⟩, ⟨xdigit, 133, []⟩]),
  (143, [⟨byte 46, 55, []⟩, ⟨byte 58, 131, []⟩, ⟨byte 93, 61, []⟩, ⟨digit, 144, []⟩, ⟨xdigit, 128, []⟩]),
  (144, [⟨byte 46, 55, []⟩, ⟨byte 58, 131, []⟩, ⟨byte 93, 61, []⟩, ⟨digit, 145, []⟩, ⟨xdigit, 129, []⟩]),
  (145, [⟨byte 46, 55, []⟩, ⟨byte 58, 131, []⟩, ⟨byte 93, 61, []⟩, ⟨xdigit, 130, []⟩]),
  (146, [⟨byte 46, 55, []⟩, ⟨byte 48, 147, []⟩, ⟨byte 53, 148, []⟩, ⟨byte 58, 131, []⟩, ⟨byte 93, 61, []⟩,
    ⟨xdigit, 128, []⟩]),
  (147, [⟨byte 58, 131, []⟩, ⟨byte 93, 61, []⟩, ⟨digit, 145, []⟩, ⟨xdigit, 129, []⟩]),
  (148, [⟨byte 48, 145, []⟩, ⟨byte 58, 131, []⟩, ⟨byte 93, 61, []⟩, ⟨xdigit, 129, []⟩]),
  (149, [⟨byte 58, 131, []⟩, ⟨byte 93, 61, []⟩, ⟨xdigit, 128, []⟩]),
  (150, [⟨byte 49, 143, []⟩, ⟨byte 50, 146, []⟩, ⟨[(2, 3)], 48, []⟩, ⟨digit, 127, []⟩, ⟨xdigit, 149, []⟩]),
  (151, [⟨byte 49, 156, []⟩, ⟨byte 50, 159, []⟩, ⟨[(2, 3)], 48, []⟩, ⟨digit, 152, []⟩, ⟨xdigit, 162, []⟩]),
  (152, [⟨byte 46, 55, []⟩, ⟨byte 58, 131, []⟩, ⟨xdigit, 153, []⟩]),
  (153, [⟨byte 58, 131, []⟩, ⟨xdigit, 154, []⟩]),
  (154, [⟨byte 58, 131, []⟩, ⟨xdigit, 155, []⟩]),
  (155, [⟨byte 58, 131, []⟩]),
  (156, [⟨byte 46, 55, []⟩, ⟨byte 58, 131, []⟩, ⟨digit, 157, []⟩, ⟨xdigit, 153, []⟩]),
  (157, [⟨byte 46, 55, []⟩, ⟨byte 58, 131, []⟩, ⟨digit, 158, []⟩, ⟨xdigit, 154, []⟩]),
  (158, [⟨byte 46, 55, []⟩, ⟨byte 58, 131, []⟩, ⟨xdigit, 155, []⟩]),
  (159, [⟨byte 46, 55, []⟩, ⟨byte 48, 160, []⟩, ⟨byte 53, 161, []⟩, ⟨byte 58, 131, []⟩, ⟨xdigit, 153, []⟩]),
  (160, [⟨byte 58, 131, []⟩, ⟨digit, 158, []⟩, ⟨xdigit, 154, []⟩]),
  (161, [⟨byte 48, 158, []⟩, ⟨byte 58, 131, []⟩, ⟨xdigit, 154, []⟩]),
  (162, [⟨byte 58, 131, []⟩, ⟨xdigit, 153, []⟩]),
  (163, [⟨[(2, 3)], 48, []⟩, ⟨xdigit, 49, []⟩]),
  (164, [⟨[(2, 3)], 48, []⟩]),
  (165, [⟨byte 3, 48, []⟩]),
  (166, [⟨byte 4, 48, []⟩]),
  (167, [⟨byte 58, 168, []⟩]),
  (168, [⟨byte 49, 143, []⟩, ⟨byte 50, 146, []⟩, ⟨byte 93, 61, []⟩, ⟨[(2, 5)], 48, []⟩, ⟨digit, 127, []⟩,
    ⟨xdigit, 149, []⟩]),
  (169, [⟨xdigit, 170, []⟩]),
  (170, [⟨byte 46, 171, []⟩, ⟨xdigit, 170, []⟩]),
  (171, [⟨more relaxed literalChar, 172, []⟩]),
  (172, [⟨byte 93, 61, []⟩, ⟨more relaxed literalChar, 172, []⟩]),
  (173, [⟨byte 32, 4, [.requestPath, .requestUri]⟩, ⟨byte 35, 20, [.requestPath, .requestUri]⟩, ⟨byte 37, 24, []⟩,
    ⟨byte 47, 26, []⟩, ⟨byte 58, 174, []⟩, ⟨byte 63, 29, [.requestPath]⟩,
    ⟨more relaxed [(33, 33), (36, 42), (44, 44), (59, 59), (61, 61), (64, 64), (95, 95), (126, 126)], 19, []⟩,
    ⟨pathChar, 173, []⟩]),
  (174, [⟨byte 32, 4, [.mark, .requestPath, .requestUri]⟩, ⟨byte 35, 20, [.mark, .requestPath, .requestUri]⟩,
    ⟨byte 37, 27, [.mark]⟩, ⟨byte 47, 33, [.mark]⟩, ⟨byte 63, 29, [.mark, .requestPath]⟩,
    ⟨more relaxed uriChar, 26, [.mark]⟩]),
  (175, [⟨byte 32, 3, [.requestMethod]⟩, ⟨methodChar, 176, []⟩]),
  (176, [⟨byte 32, 3, [.requestMethod]⟩, ⟨methodChar, 177, []⟩]),
  (177, [⟨byte 32, 3, [.requestMethod]⟩, ⟨methodChar, 178, []⟩]),
  (178, [⟨byte 32, 3, [.requestMethod]⟩, ⟨methodChar, 179, []⟩]),
  (179, [⟨byte 32, 3, [.requestMethod]⟩, ⟨methodChar, 180, []⟩]),
  (180, [⟨byte 32, 3, [.requestMethod]⟩, ⟨methodChar, 181, []⟩]),
  (181, [⟨byte 32, 3, [.requestMethod]⟩, ⟨methodChar, 182, []⟩]),
  (182, [⟨byte 32, 3, [.requestMethod]⟩, ⟨methodChar, 183, []⟩]),
  (183, [⟨byte 32, 3, [.requestMethod]⟩, ⟨methodChar, 184, []⟩]),
  (184, [⟨byte 32, 3, [.requestMethod]⟩, ⟨methodChar, 185, []⟩]),
  (185, [⟨byte 32, 3, [.requestMethod]⟩, ⟨methodChar, 186, []⟩]),
  (186, [⟨byte 32, 3, [.requestMethod]⟩, ⟨methodChar, 187, []⟩]),
  (187, [⟨byte 32, 3, [.requestMethod]⟩, ⟨methodChar, 188, []⟩]),
  (188, [⟨byte 32, 3, [.requestMethod]⟩, ⟨methodChar, 189, []⟩]),
  (189, [⟨byte 32, 3, [.requestMethod]⟩, ⟨methodChar, 190, []⟩]),
  (190, [⟨byte 32, 3, [.requestMethod]⟩, ⟨methodChar, 191, []⟩]),
  (191, [⟨byte 32, 3, [.requestMethod]⟩, ⟨methodChar, 192, []⟩]),
  (192, [⟨byte 32, 3, [.requestMethod]⟩, ⟨methodChar, 193, []⟩]),
  (193, [⟨byte 32, 3, [.requestMethod]⟩]),
  (194, [⟨[(45, 46), (48, 57), (65, 90), (97, 122)], 195, []⟩]),
  (195, [⟨[(9, 13), (32, 32), (47, 47), (62, 62)], 196, [.requestPath]⟩, ⟨[(45, 57), (65, 90), (97, 122)], 195, []⟩]),
  (196, [⟨byte 62, 197, []⟩, ⟨any, 196, []⟩]),
  (197, [⟨byte 0, 349, [.xml, .done]⟩, ⟨byte 62, 197, []⟩, ⟨any, 196, []⟩]),
  (198, [⟨byte 32, 199, [.requestPath]⟩, ⟨byte 37, 203, []⟩, ⟨byte 47, 208, []⟩, ⟨more relaxed pathChar, 202, []⟩]),
  (199, [⟨byte 123, 200, [.mark]⟩]),
  (200, [⟨byte 125, 201, []⟩, ⟨any, 200, []⟩]),
  (201, [⟨byte 0, 349, [.json, .done]⟩, ⟨byte 125, 201, []⟩, ⟨any, 200, []⟩]),
  (202, [⟨byte 32, 199, [.requestPath]⟩, ⟨byte 37, 203, []⟩, ⟨byte 47, 205, []⟩, ⟨more relaxed pathChar, 202, []⟩]),
  (203, [⟨xdigit, 204, []⟩]),
  (204, [⟨xdigit, 202, []⟩]),
  (205, [⟨byte 32, 199, [.requestPath]⟩, ⟨byte 37, 206, []⟩,
    ⟨more relaxed [(33, 33), (36, 59), (61, 61), (64, 90), (95, 95), (97, 122), (126, 126)], 205, []⟩]),
  (206, [⟨xdigit, 207, []⟩]),
  (207, [⟨xdigit, 205, []⟩]),
  (208, [⟨byte 32, 199, [.requestPath]⟩, ⟨byte 37, 206, []⟩, ⟨byte 47, 209, []⟩,
    ⟨more relaxed [(33, 33), (36, 59), (61, 61), (64, 90), (95, 95), (97, 122), (126, 126)], 205, []⟩]),
  (209, [⟨byte 32, 199, [.requestPath]⟩, ⟨byte 37, 211, []⟩, ⟨byte 47, 205, []⟩, ⟨byte 58, 213, []⟩,
    ⟨byte 64, 217, []⟩, ⟨byte 91, 222, []⟩, ⟨more relaxed pathChar, 210, []⟩]),
  (210, [⟨byte 32, 199, [.requestPath]⟩, ⟨byte 37, 211, []⟩, ⟨byte 47, 205, []⟩, ⟨byte 58, 213, []⟩,
    ⟨byte 64, 217, []⟩, ⟨more relaxed pathChar, 210, []⟩]),
  (211, [⟨xdigit, 212, []⟩]),
  (212, [⟨xdigit, 210, []⟩]),
  (213, [⟨byte 32, 199, [.requestPath]⟩, ⟨byte 37, 215, []⟩, ⟨byte 47, 205, []⟩, ⟨byte 64, 217, []⟩,
    ⟨digit, 213, []⟩, ⟨more relaxed hostChar, 214, []⟩]),
  (214, [⟨byte 37, 215, []⟩, ⟨byte 64, 217, []⟩, ⟨more relaxed hostChar, 214, []⟩]),
  (215, [⟨xdigit, 216, []⟩]),
  (216, [⟨xdigit, 214, []⟩]),
  (217, [⟨byte 32, 199, [.requestPath]⟩, ⟨byte 37, 219, []⟩, ⟨byte 47, 205, []⟩, ⟨byte 58, 221, []⟩,
    ⟨byte 91, 222, []⟩, ⟨more relaxed hostChar, 218, []⟩]),
  (218, [⟨byte 32, 199, [.requestPath]⟩, ⟨byte 37, 219, []⟩, ⟨byte 47, 205, []⟩, ⟨byte 58, 221, []⟩,
    ⟨more relaxed hostChar, 218, []⟩]),
  (219, [⟨xdigit, 220, []⟩]),
  (220, [⟨xdigit, 218, []⟩]),
  (221, [⟨byte 32, 199, [.requestPath]⟩, ⟨byte 47, 205, []⟩, ⟨digit, 221, []⟩]),
  (222, [⟨byte 6, 223, []⟩, ⟨byte 58, 342, []⟩, ⟨byte 118, 344, []⟩, ⟨xdigit, 266, []⟩]),
  (223, [⟨xdigit, 224, []⟩]),
  (224, [⟨byte 58, 228, []⟩, ⟨xdigit, 225, []⟩]),
  (225, [⟨byte 58, 228, []⟩, ⟨xdigit, 226, []⟩]),
  (226, [⟨byte 58, 228, []⟩, ⟨xdigit, 227, []⟩]),
  (227, [⟨byte 58, 228, []⟩]),
  (228, [⟨byte 49, 259, []⟩, ⟨byte 50, 262, []⟩, ⟨digit, 229, []⟩, ⟨xdigit, 265, []⟩]),
  (229, [⟨byte 46, 230, []⟩, ⟨byte 58, 255, []⟩, ⟨xdigit, 252, []⟩]),
  (230, [⟨byte 49, 247, []⟩, ⟨byte 50, 249, []⟩, ⟨digit, 231, []⟩]),
  (231, [⟨byte 46, 232, []⟩]),
  (232, [⟨byte 49, 242, []⟩, ⟨byte 50, 244, []⟩, ⟨digit, 233, []⟩]),
  (233, [⟨byte 46, 234, []⟩]),
  (234, [⟨byte 49, 237, []⟩, ⟨byte 50, 239, []⟩, ⟨digit, 235, []⟩]),
  (235, [⟨byte 93, 236, []⟩]),
  (236, [⟨byte 32, 199, [.requestPath]⟩, ⟨byte 47, 205, []⟩, ⟨byte 58, 221, []⟩]),
  (237, [⟨byte 93, 236, []⟩, ⟨digit, 238, []⟩]),
  (238, [⟨byte 93, 236, []⟩, ⟨digit, 235, []⟩]),
  (239, [⟨byte 48, 240, []⟩, ⟨byte 53, 241, []⟩, ⟨byte 93, 236, []⟩]),
  (240, [⟨digit, 235, []⟩]),
  (241, [⟨byte 48, 235, []⟩]),
  (242, [⟨byte 46, 234, []⟩, ⟨digit, 243, []⟩]),
  (243, [⟨byte 46, 234, []⟩, ⟨digit, 233, []⟩]),
  (244, [⟨byte 46, 234, []⟩, ⟨byte 48, 245, []⟩, ⟨byte 53, 246, []⟩]),
  (245, [⟨digit, 233, []⟩]),
  (246, [⟨byte 48, 233, []⟩]),
  (247, [⟨byte 46, 232, []⟩, ⟨digit, 248, []⟩]),
  (248, [⟨byte 46, 232, []⟩, ⟨digit, 231, []⟩]),
  (249, [⟨byte 46, 232, []⟩, ⟨byte 48, 250, []⟩, ⟨byte 53, 251, []⟩]),
  (250, [⟨digit, 231, []⟩]),
  (251, [⟨byte 48, 231, []⟩]),
  (252, [⟨byte 58, 255, []⟩, ⟨xdigit, 253, []⟩]),
  (253, [⟨byte 58, 255, []⟩, ⟨xdigit, 254, []⟩]),
  (254, [⟨byte 58, 255, []⟩]),
  (255, [⟨xdigit, 256, []⟩]),
  (256, [⟨byte 93, 236, []⟩, ⟨xdigit, 257, []⟩]),
  (257, [⟨byte 93, 236, []⟩, ⟨xdigit, 258, []⟩]),
  (258, [⟨byte 93, 236, []⟩, ⟨xdigit, 235, []⟩]),
  (259, [⟨byte 46, 230, []⟩, ⟨byte 58, 255, []⟩, ⟨digit, 260, []⟩, ⟨xdigit, 252, []⟩]),
  (260, [⟨byte 46, 230, []⟩, ⟨byte 58, 255, []⟩, ⟨digit, 261, []⟩, ⟨xdigit, 253, []⟩]),
  (261, [⟨byte 46, 230, []⟩, ⟨byte 58, 255, []⟩, ⟨xdigit, 254, []⟩]),
  (262, [⟨byte 46, 230, []⟩, ⟨byte 48, 263, []⟩, ⟨byte 53, 264, []⟩, ⟨byte 58, 255, []⟩, ⟨xdigit, 252, []⟩]),
  (263, [⟨byte 58, 255, []⟩, ⟨digit, 261, []⟩, ⟨xdigit, 253, []⟩]),
  (264, [⟨byte 48, 261, []⟩, ⟨byte 58, 255, []⟩, ⟨xdigit, 253, []⟩]),
  (265, [⟨byte 58, 255, []⟩, ⟨xdigit, 252, []⟩]),
  (266, [⟨byte 58, 270, []⟩, ⟨xdigit, 267, []⟩]),
  (267, [⟨byte 58, 270, []⟩, ⟨xdigit, 268, []⟩]),
  (268, [⟨byte 58, 270, []⟩, ⟨xdigit, 269, []⟩]),
  (269, [⟨byte 58, 270, []⟩]),
  (270, [⟨byte 58, 341, []⟩, ⟨xdigit, 271, []⟩]),
  (271, [⟨byte 58, 275, []⟩, ⟨xdigit, 272, []⟩]),
  (272, [⟨byte 58, 275, []⟩, ⟨xdigit, 273, []⟩]),
  (273, [⟨byte 58, 275, []⟩, ⟨xdigit, 274, []⟩]),
  (274, [⟨byte 58, 275, []⟩]),
  (275, [⟨byte 58, 340, []⟩, ⟨xdigit, 276, []⟩]),
  (276, [⟨byte 58, 280, []⟩, ⟨xdigit, 277, []⟩]),
  (277, [⟨byte 58, 280, []⟩, ⟨xdigit, 278, []⟩]),
  (278, [⟨byte 58, 280, []⟩, ⟨xdigit, 279, []⟩]),
  (279, [⟨byte 58, 280, []⟩]),
  (280, [⟨byte 58, 339, []⟩, ⟨xdigit, 281, []⟩]),
  (281, [⟨byte 58, 285, []⟩, ⟨xdigit, 282, []⟩]),
  (282, [⟨byte 58, 285, []⟩, ⟨xdigit, 283, []⟩]),
  (283, [⟨byte 58, 285, []⟩, ⟨xdigit, 284, []⟩]),
  (284, [⟨byte 58, 285, []⟩]),
  (285, [⟨byte 58, 338, []⟩, ⟨xdigit, 286, []⟩]),
  (286, [⟨byte 58, 290, []⟩, ⟨xdigit, 287, []⟩]),
  (287, [⟨byte 58, 290, []⟩, ⟨xdigit, 288, []⟩]),
  (288, [⟨byte 58, 290, []⟩, ⟨xdigit, 289, []⟩]),
  (289, [⟨byte 58, 290, []⟩]),
  (290, [⟨byte 58, 326, []⟩, ⟨xdigit, 291, []⟩]),
  (291, [⟨byte 58, 295, []⟩, ⟨xdigit, 292, []⟩]),
  (292, [⟨byte 58, 295, []⟩, ⟨xdigit, 293, []⟩]),
  (293, [⟨byte 58, 295, []⟩, ⟨xdigit, 294, []⟩]),
  (294, [⟨byte 58, 295, []⟩]),
  (295, [⟨byte 58, 325, []⟩, ⟨xdigit, 296, []⟩]),
  (296, [⟨byte 58, 300, []⟩, ⟨xdigit, 297, []⟩]),
  (297, [⟨byte 58, 300, []⟩, ⟨xdigit, 298, []⟩]),
  (298, [⟨byte 58, 300, []⟩, ⟨xdigit, 299, []⟩]),
  (299, [⟨byte 58, 300, []⟩]),
  (300, [⟨byte 58, 301, []⟩, ⟨xdigit, 296, []⟩]),
  (301, [⟨byte 49, 318, []⟩, ⟨byte 50, 321, []⟩, ⟨byte 93, 236, []⟩, ⟨[(2, 3)], 223, []⟩, ⟨digit, 302, []⟩,
    ⟨xdigit, 324, []⟩]),
  (302, [⟨byte 46, 230, []⟩, ⟨byte 58, 306, []⟩, ⟨byte 93, 236, []⟩, ⟨xdigit, 303, []⟩]),
  (303, [⟨byte 58, 306, []⟩, ⟨byte 93, 236, []⟩, ⟨xdigit, 304, []⟩]),
  (304, [⟨byte 58, 306, []⟩, ⟨byte 93, 236, []⟩, ⟨xdigit, 305, []⟩]),
  (305, [⟨byte 58, 306, []⟩, ⟨byte 93, 236, []⟩]),
  (306, [⟨byte 49, 311, []⟩, ⟨byte 50, 314, []⟩, ⟨digit, 307, []⟩, ⟨xdigit, 317, []⟩]),
  (307, [⟨byte 46, 230, []⟩, ⟨byte 58, 255, []⟩, ⟨byte 93, 236, []⟩, ⟨xdigit, 308, []⟩]),
  (308, [⟨byte 58, 255, []⟩, ⟨byte 93, 236, []⟩, ⟨xdigit, 309, []⟩]),
  (309, [⟨byte 58, 255, []⟩, ⟨byte 93, 236, []⟩, ⟨xdigit, 310, []⟩]),
  (310, [⟨byte 58, 255, []⟩, ⟨byte 93, 236, []⟩]),
  (311, [⟨byte 46, 230, []⟩, ⟨byte 58, 255, []⟩, ⟨byte 93, 236, []⟩, ⟨digit, 312, []⟩, ⟨xdigit, 308, []⟩]),
  (312, [⟨byte 46, 230, []⟩, ⟨byte 58, 255, []⟩, ⟨byte 93, 236, []⟩, ⟨digit, 313, []⟩, ⟨xdigit, 309, []⟩]),
  (313, [⟨byte 46, 230, []⟩, ⟨byte 58, 255, []⟩, ⟨byte 93, 236, []⟩, ⟨xdigit, 310, []⟩]),
  (314, [⟨byte 46, 230, []⟩, ⟨byte 48, 315, []⟩, ⟨byte 53, 316, []⟩, ⟨byte 58, 255, []⟩, ⟨byte 93, 236, []⟩,
    ⟨xdigit, 308, []⟩]),
  (315, [⟨byte 58, 255, []⟩, ⟨byte 93, 236, []⟩, ⟨digit, 313, []⟩, ⟨xdigit, 309, []⟩]),
  (316, [⟨byte 48, 313, []⟩, ⟨byte 58, 255, []⟩, ⟨byte 93, 236, []⟩, ⟨xdigit, 309, []⟩]),
  (317, [⟨byte 58, 255, []⟩, ⟨byte 93, 236, []⟩, ⟨xdigit, 308, []⟩]),
  (318, [⟨byte 46, 230, []⟩, ⟨byte 58, 306, []⟩, ⟨byte 93, 236, []⟩, ⟨digit, 319, []⟩, ⟨xdigit, 303, []⟩]),
  (319, [⟨byte 46, 230, []⟩, ⟨byte 58, 306, []⟩, ⟨byte 93, 236, []⟩, ⟨digit, 320, []⟩, ⟨xdigit, 304, []⟩]),
  (320, [⟨byte 46, 230, []⟩, ⟨byte 58, 306, []⟩, ⟨byte 93, 236, []⟩, ⟨xdigit, 305, []⟩]),
  (321, [⟨byte 46, 230, []⟩, ⟨byte 48, 322, []⟩, ⟨byte 53, 323, []⟩, ⟨byte 58, 306, []⟩, ⟨byte 93, 236, []⟩,
    ⟨xdigit, 303, []⟩]),
  (322, [⟨byte 58, 306, []⟩, ⟨byte 93, 236, []⟩, ⟨digit, 320, []⟩, ⟨xdigit, 304, []⟩]),
  (323, [⟨byte 48, 320, []⟩, ⟨byte 58, 306, []⟩, ⟨byte 93, 236, []⟩, ⟨xdigit, 304, []⟩]),
  (324, [⟨byte 58, 306, []⟩, ⟨byte 93, 236, []⟩, ⟨xdigit, 303, []⟩]),
  (325, [⟨byte 49, 318, []⟩, ⟨byte 50, 321, []⟩, ⟨[(2, 3)], 223, []⟩, ⟨digit, 302, []⟩, ⟨xdigit, 324, []⟩]),
  (326, [⟨byte 49, 331, []⟩, ⟨byte 50, 334, []⟩, ⟨[(2, 3)], 223, []⟩, ⟨digit, 327, []⟩, ⟨xdigit, 337, []⟩]),
  (327, [⟨byte 46, 230, []⟩, ⟨byte 58, 306, []⟩, ⟨xdigit, 328, []⟩]),
  (328, [⟨byte 58, 306, []⟩, ⟨xdigit, 329, []⟩]),
  (329, [⟨byte 58, 306, []⟩, ⟨xdigit, 330, []⟩]),
  (330, [⟨byte 58, 306, []⟩]),
  (331, [⟨byte 46, 230, []⟩, ⟨byte 58, 306, []⟩, ⟨digit, 332, []⟩, ⟨xdigit, 328, []⟩]),
  (332, [⟨byte 46, 230, []⟩, ⟨byte 58, 306, []⟩, ⟨digit, 333, []⟩, ⟨xdigit, 329, []⟩]),
  (333, [⟨byte 46, 230, []⟩, ⟨byte 58, 306, []⟩, ⟨xdigit, 330, []⟩]),
  (334, [⟨byte 46, 230, []⟩, ⟨byte 48, 335, []⟩, ⟨byte 53, 336, []⟩, ⟨byte 58, 306, []⟩, ⟨xdigit, 328, []⟩]),
  (335, [⟨byte 58, 306, []⟩, ⟨digit, 333, []⟩, ⟨xdigit, 329, []⟩]),
  (336, [⟨byte 48, 333, []⟩, ⟨byte 58, 306, []⟩, ⟨xdigit, 329, []⟩]),
  (337, [⟨byte 58, 306, []⟩, ⟨xdigit, 328, []⟩]),
  (338, [⟨[(2, 3)], 223, []⟩, ⟨xdigit, 224, []⟩]),
  (339, [⟨[(2, 3)], 223, []⟩]),
  (340, [⟨byte 3, 223, []⟩]),
  (341, [⟨byte 4, 223, []⟩]),
  (342, [⟨byte 58, 343, []⟩]),
  (343, [⟨byte 49, 318, []⟩, ⟨byte 50, 321, []⟩, ⟨byte 93, 236, []⟩, ⟨[(2, 5)], 223, []⟩, ⟨digit, 302, []⟩,
    ⟨xdigit, 324, []⟩]),
  (344, [⟨xdigit, 345, []⟩]),
  (345, [⟨byte 46, 346, []⟩, ⟨xdigit, 345, []⟩]),
  (346, [⟨more relaxed literalChar, 347, []⟩]),
  (347, [⟨byte 93, 236, []⟩, ⟨more relaxed literalChar, 347, []⟩]),
  (348, [⟨byte 58, 15, [.writeField]⟩, ⟨fieldChar, 14, []⟩]),
  (349, [])]

end Http11
end Http
end MyHttp
