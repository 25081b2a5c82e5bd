import MyHttp.Lib.Scan

/-! The machine of URIs (`uri.rl` as compiled). The rows of the table are the cases of the compiled machine. -/

namespace MyHttp

open Lib.Scan

/-- The actions of the machine; `marku` and `markh` are `mark`. -/
inductive UriAction where
  | mark
  | saveScheme
  | savePort
  | saveUserinfo
  | saveHost
  | savePath
  | saveQuery
  | saveFragment
deriving DecidableEq, Repr

namespace UriParser

def upTo4 : CharClass := [(48, 52)]

def upTo5 : CharClass := [(48, 53)]

def digit : CharClass := [(48, 57)]

def xdigit : CharClass := [(48, 57), (65, 70), (97, 102)]

def alpha : CharClass := [(65, 90), (97, 122)]

def schemeChar : CharClass := [(43, 43), (45, 46), (48, 57), (65, 90), (97, 122)]

/-- `unreserved` and `sub_delims`. -/
def nameChar : CharClass :=
  [(33, 33), (36, 36), (38, 46), (48, 57), (59, 59), (61, 61), (65, 90), (95, 95), (97, 122), (126, 126)]

def userChar : CharClass :=
  [(33, 33), (36, 36), (38, 46), (48, 59), (61, 61), (65, 90), (95, 95), (97, 122), (126, 126)]

/-- `pchar` without the colon. -/
def segmentChar : CharClass :=
  [(33, 33), (36, 36), (38, 46), (48, 57), (59, 59), (61, 61), (64, 90), (95, 95), (97, 122), (126, 126), (128, 255)]

/-- `pchar` and the slash. -/
def pathChar : CharClass :=
  [(33, 33), (36, 36), (38, 59), (61, 61), (64, 90), (95, 95), (97, 122), (126, 126), (128, 255)]

/-- `pchar`, the slash and the question mark. -/
def queryChar : CharClass :=
  [(33, 33), (36, 36), (38, 59), (61, 61), (63, 90), (95, 95), (97, 122), (126, 126), (128, 255)]

/-- The states with their edges. State 0 is the error; 451 and above are final. -/
def table : Table UriAction :=
  [(1, [⟨xdigit, 2, []⟩]),
  (2, [⟨xdigit, 454, []⟩]),
  (3, [⟨xdigit, 4, []⟩]),
  (4, [⟨xdigit, 452, []⟩]),
  (5, [⟨xdigit, 6, []⟩]),
  (6, [⟨xdigit, 455, []⟩]),
  (7, [⟨xdigit, 8, []⟩]),
  (8, [⟨xdigit, 457, []⟩]),
  (9, [⟨upTo4, 10, []⟩]),
  (10, [⟨digit, 11, []⟩]),
  (11, [⟨byte 46, 12, []⟩]),
  (12, [⟨byte 2, 13, []⟩, ⟨byte 48, 15, []⟩, ⟨byte 49, 27, []⟩, ⟨byte 50, 29, []⟩, ⟨digit, 28, []⟩]),
  (13, [⟨upTo4, 14, []⟩]),
  (14, [⟨digit, 15, []⟩]),
  (15, [⟨byte 46, 16, []⟩]),
  (16, [⟨byte 2, 17, []⟩, ⟨byte 48, 19, []⟩, ⟨byte 49, 23, []⟩, ⟨byte 50, 25, []⟩, ⟨digit, 24, []⟩]),
  (17, [⟨upTo4, 18, []⟩]),
  (18, [⟨digit, 19, []⟩]),
  (19, [⟨byte 46, 20, []⟩]),
  (20, [⟨byte 2, 21, []⟩, ⟨byte 48, 460, []⟩, ⟨byte 49, 463, []⟩, ⟨byte 50, 465, []⟩, ⟨digit, 464, []⟩]),
  (21, [⟨upTo4, 22, []⟩]),
  (22, [⟨digit, 460, []⟩]),
  (23, [⟨byte 46, 20, []⟩, ⟨digit, 24, []⟩]),
  (24, [⟨byte 46, 20, []⟩, ⟨digit, 19, []⟩]),
  (25, [⟨byte 46, 20, []⟩, ⟨byte 53, 26, []⟩, ⟨digit, 19, []⟩]),
  (26, [⟨byte 46, 20, []⟩, ⟨upTo5, 19, []⟩]),
  (27, [⟨byte 46, 16, []⟩, ⟨digit, 28, []⟩]),
  (28, [⟨byte 46, 16, []⟩, ⟨digit, 15, []⟩]),
  (29, [⟨byte 46, 16, []⟩, ⟨byte 53, 30, []⟩, ⟨digit, 15, []⟩]),
  (30, [⟨byte 46, 16, []⟩, ⟨upTo5, 15, []⟩]),
  (31, [⟨xdigit, 32, []⟩]),
  (32, [⟨xdigit, 467, []⟩]),
  (33, [⟨byte 37, 34, []⟩, ⟨byte 64, 469, [.saveUserinfo]⟩, ⟨userChar, 33, []⟩]),
  (34, [⟨xdigit, 35, []⟩]),
  (35, [⟨xdigit, 33, []⟩]),
  (36, [⟨xdigit, 37, []⟩]),
  (37, [⟨xdigit, 470, []⟩]),
  (38, [⟨byte 58, 146, []⟩, ⟨byte 118, 225, []⟩, ⟨xdigit, 39, []⟩]),
  (39, [⟨byte 58, 43, []⟩, ⟨xdigit, 40, []⟩]),
  (40, [⟨byte 58, 43, []⟩, ⟨xdigit, 41, []⟩]),
  (41, [⟨byte 58, 43, []⟩, ⟨xdigit, 42, []⟩]),
  (42, [⟨byte 58, 43, []⟩]),
  (43, [⟨byte 58, 141, []⟩, ⟨xdigit, 44, []⟩]),
  (44, [⟨byte 58, 48, []⟩, ⟨xdigit, 45, []⟩]),
  (45, [⟨byte 58, 48, []⟩, ⟨xdigit, 46, []⟩]),
  (46, [⟨byte 58, 48, []⟩, ⟨xdigit, 47, []⟩]),
  (47, [⟨byte 58, 48, []⟩]),
  (48, [⟨byte 58, 136, []⟩, ⟨xdigit, 49, []⟩]),
  (49, [⟨byte 58, 53, []⟩, ⟨xdigit, 50, []⟩]),
  (50, [⟨byte 58, 53, []⟩, ⟨xdigit, 51, []⟩]),
  (51, [⟨byte 58, 53, []⟩, ⟨xdigit, 52, []⟩]),
  (52, [⟨byte 58, 53, []⟩]),
  (53, [⟨byte 58, 131, []⟩, ⟨xdigit, 54, []⟩]),
  (54, [⟨byte 58, 58, []⟩, ⟨xdigit, 55, []⟩]),
  (55, [⟨byte 58, 58, []⟩, ⟨xdigit, 56, []⟩]),
  (56, [⟨byte 58, 58, []⟩, ⟨xdigit, 57, []⟩]),
  (57, [⟨byte 58, 58, []⟩]),
  (58, [⟨byte 58, 126, []⟩, ⟨xdigit, 59, []⟩]),
  (59, [⟨byte 58, 63, []⟩, ⟨xdigit, 60, []⟩]),
  (60, [⟨byte 58, 63, []⟩, ⟨xdigit, 61, []⟩]),
  (61, [⟨byte 58, 63, []⟩, ⟨xdigit, 62, []⟩]),
  (62, [⟨byte 58, 63, []⟩]),
  (63, [⟨byte 58, 113, []⟩, ⟨xdigit, 64, []⟩]),
  (64, [⟨byte 58, 68, []⟩, ⟨xdigit, 65, []⟩]),
  (65, [⟨byte 58, 68, []⟩, ⟨xdigit, 66, []⟩]),
  (66, [⟨byte 58, 68, []⟩, ⟨xdigit, 67, []⟩]),
  (67, [⟨byte 58, 68, []⟩]),
  (68, [⟨byte 2, 69, []⟩, ⟨byte 48, 96, []⟩, ⟨byte 49, 104, []⟩, ⟨byte 50, 107, []⟩, ⟨byte 58, 111, []⟩,
    ⟨digit, 110, []⟩, ⟨xdigit, 112, []⟩]),
  (69, [⟨upTo4, 70, []⟩]),
  (70, [⟨digit, 71, []⟩]),
  (71, [⟨byte 46, 72, []⟩]),
  (72, [⟨byte 2, 73, []⟩, ⟨byte 48, 75, []⟩, ⟨byte 49, 92, []⟩, ⟨byte 50, 94, []⟩, ⟨digit, 93, []⟩]),
  (73, [⟨upTo4, 74, []⟩]),
  (74, [⟨digit, 75, []⟩]),
  (75, [⟨byte 46, 76, []⟩]),
  (76, [⟨byte 2, 77, []⟩, ⟨byte 48, 79, []⟩, ⟨byte 49, 88, []⟩, ⟨byte 50, 90, []⟩, ⟨digit, 89, []⟩]),
  (77, [⟨upTo4, 78, []⟩]),
  (78, [⟨digit, 79, []⟩]),
  (79, [⟨byte 46, 80, []⟩]),
  (80, [⟨byte 2, 81, []⟩, ⟨byte 48, 83, []⟩, ⟨byte 49, 84, []⟩, ⟨byte 50, 86, []⟩, ⟨digit, 85, []⟩]),
  (81, [⟨upTo4, 82, []⟩]),
  (82, [⟨digit, 83, []⟩]),
  (83, [⟨byte 93, 460, []⟩]),
  (84, [⟨byte 93, 460, []⟩, ⟨digit, 85, []⟩]),
  (85, [⟨byte 93, 460, []⟩, ⟨digit, 83, []⟩]),
  (86, [⟨byte 53, 87, []⟩, ⟨byte 93, 460, []⟩, ⟨digit, 83, []⟩]),
  (87, [⟨byte 93, 460, []⟩, ⟨upTo5, 83, []⟩]),
  (88, [⟨byte 46, 80, []⟩, ⟨digit, 89, []⟩]),
  (89, [⟨byte 46, 80, []⟩, ⟨digit, 79, []⟩]),
  (90, [⟨byte 46, 80, []⟩, ⟨byte 53, 91, []⟩, ⟨digit, 79, []⟩]),
  (91, [⟨byte 46, 80, []⟩, ⟨upTo5, 79, []⟩]),
  (92, [⟨byte 46, 76, []⟩, ⟨digit, 93, []⟩]),
  (93, [⟨byte 46, 76, []⟩, ⟨digit, 75, []⟩]),
  (94, [⟨byte 46, 76, []⟩, ⟨byte 53, 95, []⟩, ⟨digit, 75, []⟩]),
  (95, [⟨byte 46, 76, []⟩, ⟨upTo5, 75, []⟩]),
  (96, [⟨byte 46, 72, []⟩, ⟨byte 58, 100, []⟩, ⟨xdigit, 97, []⟩]),
  (97, [⟨byte 58, 100, []⟩, ⟨xdigit, 98, []⟩]),
  (98, [⟨byte 58, 100, []⟩, ⟨xdigit, 99, []⟩]),
  (99, [⟨byte 58, 100, []⟩]),
  (100, [⟨byte 58, 83, []⟩, ⟨xdigit, 101, []⟩]),
  (101, [⟨byte 93, 460, []⟩, ⟨xdigit, 102, []⟩]),
  (102, [⟨byte 93, 460, []⟩, ⟨xdigit, 103, []⟩]),
  (103, [⟨byte 93, 460, []⟩, ⟨xdigit, 83, []⟩]),
  (104, [⟨byte 46, 72, []⟩, ⟨byte 58, 100, []⟩, ⟨digit, 105, []⟩, ⟨xdigit, 97, []⟩]),
  (105, [⟨byte 46, 72, []⟩, ⟨byte 58, 100, []⟩, ⟨digit, 106, []⟩, ⟨xdigit, 98, []⟩]),
  (106, [⟨byte 46, 72, []⟩, ⟨byte 58, 100, []⟩, ⟨xdigit, 99, []⟩]),
  (107, [⟨byte 46, 72, []⟩, ⟨byte 53, 109, []⟩, ⟨byte 58, 100, []⟩, ⟨digit, 108, []⟩, ⟨xdigit, 97, []⟩]),
  (108, [⟨byte 46, 72, []⟩, ⟨byte 58, 100, []⟩, ⟨xdigit, 98, []⟩]),
  (109, [⟨byte 46, 72, []⟩, ⟨byte 58, 100, []⟩, ⟨upTo5, 106, []⟩, ⟨xdigit, 98, []⟩]),
  (110, [⟨byte 46, 72, []⟩, ⟨byte 58, 100, []⟩, ⟨digit, 108, []⟩, ⟨xdigit, 97, []⟩]),
  (111, [⟨xdigit, 101, []⟩]),
  (112, [⟨byte 58, 100, []⟩, ⟨xdigit, 97, []⟩]),
  (113, [⟨byte 2, 69, []⟩, ⟨byte 48, 114, []⟩, ⟨byte 49, 118, []⟩, ⟨byte 50, 121, []⟩, ⟨digit, 124, []⟩,
    ⟨xdigit, 125, []⟩]),
  (114, [⟨byte 46, 72, []⟩, ⟨byte 58, 111, []⟩, ⟨xdigit, 115, []⟩]),
  (115, [⟨byte 58, 111, []⟩, ⟨xdigit, 116, []⟩]),
  (116, [⟨byte 58, 111, []⟩, ⟨xdigit, 117, []⟩]),
  (117, [⟨byte 58, 111, []⟩]),
  (118, [⟨byte 46, 72, []⟩, ⟨byte 58, 111, []⟩, ⟨digit, 119, []⟩, ⟨xdigit, 115, []⟩]),
  (119, [⟨byte 46, 72, []⟩, ⟨byte 58, 111, []⟩, ⟨digit, 120, []⟩, ⟨xdigit, 116, []⟩]),
  (120, [⟨byte 46, 72, []⟩, ⟨byte 58, 111, []⟩, ⟨xdigit, 117, []⟩]),
  (121, [⟨byte 46, 72, []⟩, ⟨byte 53, 123, []⟩, ⟨byte 58, 111, []⟩, ⟨digit, 122, []⟩, ⟨xdigit, 115, []⟩]),
  (122, [⟨byte 46, 72, []⟩, ⟨byte 58, 111, []⟩, ⟨xdigit, 116, []⟩]),
  (123, [⟨byte 46, 72, []⟩, ⟨byte 58, 111, []⟩, ⟨upTo5, 120, []⟩, ⟨xdigit, 116, []⟩]),
  (124, [⟨byte 46, 72, []⟩, ⟨byte 58, 111, []⟩, ⟨digit, 122, []⟩, ⟨xdigit, 115, []⟩]),
  (125, [⟨byte 58, 111, []⟩, ⟨xdigit, 115, []⟩]),
  (126, [⟨xdigit, 127, []⟩]),
  (127, [⟨byte 58, 113, []⟩, ⟨xdigit, 128, []⟩]),
  (128, [⟨byte 58, 113, []⟩, ⟨xdigit, 129, []⟩]),
  (129, [⟨byte 58, 113, []⟩, ⟨xdigit, 130, []⟩]),
  (130, [⟨byte 58, 113, []⟩]),
  (131, [⟨xdigit, 132, []⟩]),
  (132, [⟨byte 58, 126, []⟩, ⟨xdigit, 133, []⟩]),
  (133, [⟨byte 58, 126, []⟩, ⟨xdigit, 134, []⟩]),
  (134, [⟨byte 58, 126, []⟩, ⟨xdigit, 135, []⟩]),
  (135, [⟨byte 58, 126, []⟩]),
  (136, [⟨xdigit, 137, []⟩]),
  (137, [⟨byte 58, 131, []⟩, ⟨xdigit, 138, []⟩]),
  (138, [⟨byte 58, 131, []⟩, ⟨xdigit, 139, []⟩]),
  (139, [⟨byte 58, 131, []⟩, ⟨xdigit, 140, []⟩]),
  (140, [⟨byte 58, 131, []⟩]),
  (141, [⟨xdigit, 142, []⟩]),
  (142, [⟨byte 58, 136, []⟩, ⟨xdigit, 143, []⟩]),
  (143, [⟨byte 58, 136, []⟩, ⟨xdigit, 144, []⟩]),
  (144, [⟨byte 58, 136, []⟩, ⟨xdigit, 145, []⟩]),
  (145, [⟨byte 58, 136, []⟩]),
  (146, [⟨byte 58, 147, []⟩]),
  (147, [⟨byte 2, 69, []⟩, ⟨byte 48, 148, []⟩, ⟨byte 49, 217, []⟩, ⟨byte 50, 220, []⟩, ⟨byte 93, 460, []⟩,
    ⟨digit, 223, []⟩, ⟨xdigit, 224, []⟩]),
  (148, [⟨byte 46, 72, []⟩, ⟨byte 58, 152, []⟩, ⟨byte 93, 460, []⟩, ⟨xdigit, 149, []⟩]),
  (149, [⟨byte 58, 152, []⟩, ⟨byte 93, 460, []⟩, ⟨xdigit, 150, []⟩]),
  (150, [⟨byte 58, 152, []⟩, ⟨byte 93, 460, []⟩, ⟨xdigit, 151, []⟩]),
  (151, [⟨byte 58, 152, []⟩, ⟨byte 93, 460, []⟩]),
  (152, [⟨byte 2, 69, []⟩, ⟨byte 48, 153, []⟩, ⟨byte 49, 209, []⟩, ⟨byte 50, 212, []⟩, ⟨digit, 215, []⟩,
    ⟨xdigit, 216, []⟩]),
  (153, [⟨byte 46, 72, []⟩, ⟨byte 58, 157, []⟩, ⟨byte 93, 460, []⟩, ⟨xdigit, 154, []⟩]),
  (154, [⟨byte 58, 157, []⟩, ⟨byte 93, 460, []⟩, ⟨xdigit, 155, []⟩]),
  (155, [⟨byte 58, 157, []⟩, ⟨byte 93, 460, []⟩, ⟨xdigit, 156, []⟩]),
  (156, [⟨byte 58, 157, []⟩, ⟨byte 93, 460, []⟩]),
  (157, [⟨byte 2, 69, []⟩, ⟨byte 48, 158, []⟩, ⟨byte 49, 201, []⟩, ⟨byte 50, 204, []⟩, ⟨digit, 207, []⟩,
    ⟨xdigit, 208, []⟩]),
  (158, [⟨byte 46, 72, []⟩, ⟨byte 58, 162, []⟩, ⟨byte 93, 460, []⟩, ⟨xdigit, 159, []⟩]),
  (159, [⟨byte 58, 162, []⟩, ⟨byte 93, 460, []⟩, ⟨xdigit, 160, []⟩]),
  (160, [⟨byte 58, 162, []⟩, ⟨byte 93, 460, []⟩, ⟨xdigit, 161, []⟩]),
  (161, [⟨byte 58, 162, []⟩, ⟨byte 93, 460, []⟩]),
  (162, [⟨byte 2, 69, []⟩, ⟨byte 48, 163, []⟩, ⟨byte 49, 193, []⟩, ⟨byte 50, 196, []⟩, ⟨digit, 199, []⟩,
    ⟨xdigit, 200, []⟩]),
  (163, [⟨byte 46, 72, []⟩, ⟨byte 58, 167, []⟩, ⟨byte 93, 460, []⟩, ⟨xdigit, 164, []⟩]),
  (164, [⟨byte 58, 167, []⟩, ⟨byte 93, 460, []⟩, ⟨xdigit, 165, []⟩]),
  (165, [⟨byte 58, 167, []⟩, ⟨byte 93, 460, []⟩, ⟨xdigit, 166, []⟩]),
  (166, [⟨byte 58, 167, []⟩, ⟨byte 93, 460, []⟩]),
  (167, [⟨byte 2, 69, []⟩, ⟨byte 48, 168, []⟩, ⟨byte 49, 185, []⟩, ⟨byte 50, 188, []⟩, ⟨digit, 191, []⟩,
    ⟨xdigit, 192, []⟩]),
  (168, [⟨byte 46, 72, []⟩, ⟨byte 58, 172, []⟩, ⟨byte 93, 460, []⟩, ⟨xdigit, 169, []⟩]),
  (169, [⟨byte 58, 172, []⟩, ⟨byte 93, 460, []⟩, ⟨xdigit, 170, []⟩]),
  (170, [⟨byte 58, 172, []⟩, ⟨byte 93, 460, []⟩, ⟨xdigit, 171, []⟩]),
  (171, [⟨byte 58, 172, []⟩, ⟨byte 93, 460, []⟩]),
  (172, [⟨byte 2, 69, []⟩, ⟨byte 48, 173, []⟩, ⟨byte 49, 177, []⟩, ⟨byte 50, 180, []⟩, ⟨digit, 183, []⟩,
    ⟨xdigit, 184, []⟩]),
  (173, [⟨byte 46, 72, []⟩, ⟨byte 58, 111, []⟩, ⟨byte 93, 460, []⟩, ⟨xdigit, 174, []⟩]),
  (174, [⟨byte 58, 111, []⟩, ⟨byte 93, 460, []⟩, ⟨xdigit, 175, []⟩]),
  (175, [⟨byte 58, 111, []⟩, ⟨byte 93, 460, []⟩, ⟨xdigit, 176, []⟩]),
  (176, [⟨byte 58, 111, []⟩, ⟨byte 93, 460, []⟩]),
  (177, [⟨byte 46, 72, []⟩, ⟨byte 58, 111, []⟩, ⟨byte 93, 460, []⟩, ⟨digit, 178, []⟩, ⟨xdigit, 174, []⟩]),
  (178, [⟨byte 46, 72, []⟩, ⟨byte 58, 111, []⟩, ⟨byte 93, 460, []⟩, ⟨digit, 179, []⟩, ⟨xdigit, 175, []⟩]),
  (179, [⟨byte 46, 72, []⟩, ⟨byte 58, 111, []⟩, ⟨byte 93, 460, []⟩, ⟨xdigit, 176, []⟩]),
  (180, [⟨byte 46, 72, []⟩, ⟨byte 53, 182, []⟩, ⟨byte 58, 111, []⟩, ⟨byte 93, 460, []⟩, ⟨digit, 181, []⟩,
    ⟨xdigit, 174, []⟩]),
  (181, [⟨byte 46, 72, []⟩, ⟨byte 58, 111, []⟩, ⟨byte 93, 460, []⟩, ⟨xdigit, 175, []⟩]),
  (182, [⟨byte 46, 72, []⟩, ⟨byte 58, 111, []⟩, ⟨byte 93, 460, []⟩, ⟨upTo5, 179, []⟩, ⟨xdigit, 175, []⟩]),
  (183, [⟨byte 46, 72, []⟩, ⟨byte 58, 111, []⟩, ⟨byte 93, 460, []⟩, ⟨digit, 181, []⟩, ⟨xdigit, 174, []⟩]),
  (184, [⟨byte 58, 111, []⟩, ⟨byte 93, 460, []⟩, ⟨xdigit, 174, []⟩]),
  (185, [⟨byte 46, 72, []⟩, ⟨byte 58, 172, []⟩, ⟨byte 93, 460, []⟩, ⟨digit, 186, []⟩, ⟨xdigit, 169, []⟩]),
  (186, [⟨byte 46, 72, []⟩, ⟨byte 58, 172, []⟩, ⟨byte 93, 460, []⟩, ⟨digit, 187, []⟩, ⟨xdigit, 170, []⟩]),
  (187, [⟨byte 46, 72, []⟩, ⟨byte 58, 172, []⟩, ⟨byte 93, 460, []⟩, ⟨xdigit, 171, []⟩]),
  (188, [⟨byte 46, 72, []⟩, ⟨byte 53, 190, []⟩, ⟨byte 58, 172, []⟩, ⟨byte 93, 460, []⟩, ⟨digit, 189, []⟩,
    ⟨xdigit, 169, []⟩]),
  (189, [⟨byte 46, 72, []⟩, ⟨byte 58, 172, []⟩, ⟨byte 93, 460, []⟩, ⟨xdigit, 170, []⟩]),
  (190, [⟨byte 46, 72, []⟩, ⟨byte 58, 172, []⟩, ⟨byte 93, 460, []⟩, ⟨upTo5, 187, []⟩, ⟨xdigit, 170, []⟩]),
  (191, [⟨byte 46, 72, []⟩, ⟨byte 58, 172, []⟩, ⟨byte 93, 460, []⟩, ⟨digit, 189, []⟩, ⟨xdigit, 169, []⟩]),
  (192, [⟨byte 58, 172, []⟩, ⟨byte 93, 460, []⟩, ⟨xdigit, 169, []⟩]),
  (193, [⟨byte 46, 72, []⟩, ⟨byte 58, 167, []⟩, ⟨byte 93, 460, []⟩, ⟨digit, 194, []⟩, ⟨xdigit, 164, []⟩]),
  (194, [⟨byte 46, 72, []⟩, ⟨byte 58, 167, []⟩, ⟨byte 93, 460, []⟩, ⟨digit, 195, []⟩, ⟨xdigit, 165, []⟩]),
  (195, [⟨byte 46, 72, []⟩, ⟨byte 58, 167, []⟩, ⟨byte 93, 460, []⟩, ⟨xdigit, 166, []⟩]),
  (196, [⟨byte 46, 72, []⟩, ⟨byte 53, 198, []⟩, ⟨byte 58, 167, []⟩, ⟨byte 93, 460, []⟩, ⟨digit, 197, []⟩,
    ⟨xdigit, 164, []⟩]),
  (197, [⟨byte 46, 72, []⟩, ⟨byte 58, 167, []⟩, ⟨byte 93, 460, []⟩, ⟨xdigit, 165, []⟩]),
  (198, [⟨byte 46, 72, []⟩, ⟨byte 58, 167, []⟩, ⟨byte 93, 460, []⟩, ⟨upTo5, 195, []⟩, ⟨xdigit, 165, []⟩]),
  (199, [⟨byte 46, 72, []⟩, ⟨byte 58, 167, []⟩, ⟨byte 93, 460, []⟩, ⟨digit, 197, []⟩, ⟨xdigit, 164, []⟩]),
  (200, [⟨byte 58, 167, []⟩, ⟨byte 93, 460, []⟩, ⟨xdigit, 164, []⟩]),
  (201, [⟨byte 46, 72, []⟩, ⟨byte 58, 162, []⟩, ⟨byte 93, 460, []⟩, ⟨digit, 202, []⟩, ⟨xdigit, 159, []⟩]),
  (202, [⟨byte 46, 72, []⟩, ⟨byte 58, 162, []⟩, ⟨byte 93, 460, []⟩, ⟨digit, 203, []⟩, ⟨xdigit, 160, []⟩]),
  (203, [⟨byte 46, 72, []⟩, ⟨byte 58, 162, []⟩, ⟨byte 93, 460, []⟩, ⟨xdigit, 161, []⟩]),
  (204, [⟨byte 46, 72, []⟩, ⟨byte 53, 206, []⟩, ⟨byte 58, 162, []⟩, ⟨byte 93, 460, []⟩, ⟨digit, 205, []⟩,
    ⟨xdigit, 159, []⟩]),
  (205, [⟨byte 46, 72, []⟩, ⟨byte 58, 162, []⟩, ⟨byte 93, 460, []⟩, ⟨xdigit, 160, []⟩]),
  (206, [⟨byte 46, 72, []⟩, ⟨byte 58, 162, []⟩, ⟨byte 93, 460, []⟩, ⟨upTo5, 203, []⟩, ⟨xdigit, 160, []⟩]),
  (207, [⟨byte 46, 72, []⟩, ⟨byte 58, 162, []⟩, ⟨byte 93, 460, []⟩, ⟨digit, 205, []⟩, ⟨xdigit, 159, []⟩]),
  (208, [⟨byte 58, 162, []⟩, ⟨byte 93, 460, []⟩, ⟨xdigit, 159, []⟩]),
  (209, [⟨byte 46, 72, []⟩, ⟨byte 58, 157, []⟩, ⟨byte 93, 460, []⟩, ⟨digit, 210, []⟩, ⟨xdigit, 154, []⟩]),
  (210, [⟨byte 46, 72, []⟩, ⟨byte 58, 157, []⟩, ⟨byte 93, 460, []⟩, ⟨digit, 211, []⟩, ⟨xdigit, 155, []⟩]),
  (211, [⟨byte 46, 72, []⟩, ⟨byte 58, 157, []⟩, ⟨byte 93, 460, []⟩, ⟨xdigit, 156, []⟩]),
  (212, [⟨byte 46, 72, []⟩, ⟨byte 53, 214, []⟩, ⟨byte 58, 157, []⟩, ⟨byte 93, 460, []⟩, ⟨digit, 213, []⟩,
    ⟨xdigit, 154, []⟩]),
  (213, [⟨byte 46, 72, []⟩, ⟨byte 58, 157, []⟩, ⟨byte 93, 460, []⟩, ⟨xdigit, 155, []⟩]),
  (214, [⟨byte 46, 72, []⟩, ⟨byte 58, 157, []⟩, ⟨byte 93, 460, []⟩, ⟨upTo5, 211, []⟩, ⟨xdigit, 155, []⟩]),
  (215, [⟨byte 46, 72, []⟩, ⟨byte 58, 157, []⟩, ⟨byte 93, 460, []⟩, ⟨digit, 213, []⟩, ⟨xdigit, 154, []⟩]),
  (216, [⟨byte 58, 157, []⟩, ⟨byte 93, 460, []⟩, ⟨xdigit, 154, []⟩]),
  (217, [⟨byte 46, 72, []⟩, ⟨byte 58, 152, []⟩, ⟨byte 93, 460, []⟩, ⟨digit, 218, []⟩, ⟨xdigit, 149, []⟩]),
  (218, [⟨byte 46, 72, []⟩, ⟨byte 58, 152, []⟩, ⟨byte 93, 460, []⟩, ⟨digit, 219, []⟩, ⟨xdigit, 150, []⟩]),
  (219, [⟨byte 46, 72, []⟩, ⟨byte 58, 152, []⟩, ⟨byte 93, 460, []⟩, ⟨xdigit, 151, []⟩]),
  (220, [⟨byte 46, 72, []⟩, ⟨byte 53, 222, []⟩, ⟨byte 58, 152, []⟩, ⟨byte 93, 460, []⟩, ⟨digit, 221, []⟩,
    ⟨xdigit, 149, []⟩]),
  (221, [⟨byte 46, 72, []⟩, ⟨byte 58, 152, []⟩, ⟨byte 93, 460, []⟩, ⟨xdigit, 150, []⟩]),
  (222, [⟨byte 46, 72, []⟩, ⟨byte 58, 152, []⟩, ⟨byte 93, 460, []⟩, ⟨upTo5, 219, []⟩, ⟨xdigit, 150, []⟩]),
  (223, [⟨byte 46, 72, []⟩, ⟨byte 58, 152, []⟩, ⟨byte 93, 460, []⟩, ⟨digit, 221, []⟩, ⟨xdigit, 149, []⟩]),
  (224, [⟨byte 58, 152, []⟩, ⟨byte 93, 460, []⟩, ⟨xdigit, 149, []⟩]),
  (225, [⟨xdigit, 226, []⟩]),
  (226, [⟨byte 46, 227, []⟩, ⟨xdigit, 226, []⟩]),
  (227, [⟨userChar, 228, []⟩]),
  (228, [⟨byte 93, 460, []⟩, ⟨userChar, 228, []⟩]),
  (229, [⟨upTo4, 230, []⟩]),
  (230, [⟨digit, 231, []⟩]),
  (231, [⟨byte 46, 232, []⟩]),
  (232, [⟨byte 2, 233, []⟩, ⟨byte 48, 235, []⟩, ⟨byte 49, 249, []⟩, ⟨byte 50, 251, []⟩, ⟨digit, 250, []⟩]),
  (233, [⟨upTo4, 234, []⟩]),
  (234, [⟨digit, 235, []⟩]),
  (235, [⟨byte 46, 236, []⟩]),
  (236, [⟨byte 2, 237, []⟩, ⟨byte 48, 239, []⟩, ⟨byte 49, 245, []⟩, ⟨byte 50, 247, []⟩, ⟨digit, 246, []⟩]),
  (237, [⟨upTo4, 238, []⟩]),
  (238, [⟨digit, 239, []⟩]),
  (239, [⟨byte 46, 240, []⟩]),
  (240, [⟨byte 2, 241, []⟩, ⟨byte 48, 512, []⟩, ⟨byte 49, 516, []⟩, ⟨byte 50, 518, []⟩, ⟨digit, 517, []⟩]),
  (241, [⟨upTo4, 242, []⟩]),
  (242, [⟨digit, 512, []⟩]),
  (243, [⟨xdigit, 244, []⟩]),
  (244, [⟨xdigit, 513, []⟩]),
  (245, [⟨byte 46, 240, []⟩, ⟨digit, 246, []⟩]),
  (246, [⟨byte 46, 240, []⟩, ⟨digit, 239, []⟩]),
  (247, [⟨byte 46, 240, []⟩, ⟨byte 53, 248, []⟩, ⟨digit, 239, []⟩]),
  (248, [⟨byte 46, 240, []⟩, ⟨upTo5, 239, []⟩]),
  (249, [⟨byte 46, 236, []⟩, ⟨digit, 250, []⟩]),
  (250, [⟨byte 46, 236, []⟩, ⟨digit, 235, []⟩]),
  (251, [⟨byte 46, 236, []⟩, ⟨byte 53, 252, []⟩, ⟨digit, 235, []⟩]),
  (252, [⟨byte 46, 236, []⟩, ⟨upTo5, 235, []⟩]),
  (253, [⟨xdigit, 254, []⟩]),
  (254, [⟨xdigit, 520, []⟩]),
  (255, [⟨byte 37, 256, []⟩, ⟨byte 64, 522, [.saveUserinfo]⟩, ⟨userChar, 255, []⟩]),
  (256, [⟨xdigit, 257, []⟩]),
  (257, [⟨xdigit, 255, []⟩]),
  (258, [⟨xdigit, 259, []⟩]),
  (259, [⟨xdigit, 523, []⟩]),
  (260, [⟨byte 58, 368, []⟩, ⟨byte 118, 447, []⟩, ⟨xdigit, 261, []⟩]),
  (261, [⟨byte 58, 265, []⟩, ⟨xdigit, 262, []⟩]),
  (262, [⟨byte 58, 265, []⟩, ⟨xdigit, 263, []⟩]),
  (263, [⟨byte 58, 265, []⟩, ⟨xdigit, 264, []⟩]),
  (264, [⟨byte 58, 265, []⟩]),
  (265, [⟨byte 58, 363, []⟩, ⟨xdigit, 266, []⟩]),
  (266, [⟨byte 58, 270, []⟩, ⟨xdigit, 267, []⟩]),
  (267, [⟨byte 58, 270, []⟩, ⟨xdigit, 268, []⟩]),
  (268, [⟨byte 58, 270, []⟩, ⟨xdigit, 269, []⟩]),
  (269, [⟨byte 58, 270, []⟩]),
  (270, [⟨byte 58, 358, []⟩, ⟨xdigit, 271, []⟩]),
  (271, [⟨byte 58, 275, []⟩, ⟨xdigit, 272, []⟩]),
  (272, [⟨byte 58, 275, []⟩, ⟨xdigit, 273, []⟩]),
  (273, [⟨byte 58, 275, []⟩, ⟨xdigit, 274, []⟩]),
  (274, [⟨byte 58, 275, []⟩]),
  (275, [⟨byte 58, 353, []⟩, ⟨xdigit, 276, []⟩]),
  (276, [⟨byte 58, 280, []⟩, ⟨xdigit, 277, []⟩]),
  (277, [⟨byte 58, 280, []⟩, ⟨xdigit, 278, []⟩]),
  (278, [⟨byte 58, 280, []⟩, ⟨xdigit, 279, []⟩]),
  (279, [⟨byte 58, 280, []⟩]),
  (280, [⟨byte 58, 348, []⟩, ⟨xdigit, 281, []⟩]),
  (281, [⟨byte 58, 285, []⟩, ⟨xdigit, 282, []⟩]),
  (282, [⟨byte 58, 285, []⟩, ⟨xdigit, 283, []⟩]),
  (283, [⟨byte 58, 285, []⟩, ⟨xdigit, 284, []⟩]),
  (284, [⟨byte 58, 285, []⟩]),
  (285, [⟨byte 58, 335, []⟩, ⟨xdigit, 286, []⟩]),
  (286, [⟨byte 58, 290, []⟩, ⟨xdigit, 287, []⟩]),
  (287, [⟨byte 58, 290, []⟩, ⟨xdigit, 288, []⟩]),
  (288, [⟨byte 58, 290, []⟩, ⟨xdigit, 289, []⟩]),
  (289, [⟨byte 58, 290, []⟩]),
  (290, [⟨byte 2, 291, []⟩, ⟨byte 48, 318, []⟩, ⟨byte 49, 326, []⟩, ⟨byte 50, 329, []⟩, ⟨byte 58, 333, []⟩,
    ⟨digit, 332, []⟩, ⟨xdigit, 334, []⟩]),
  (291, [⟨upTo4, 292, []⟩]),
  (292, [⟨digit, 293, []⟩]),
  (293, [⟨byte 46, 294, []⟩]),
  (294, [⟨byte 2, 295, []⟩, ⟨byte 48, 297, []⟩, ⟨byte 49, 314, []⟩, ⟨byte 50, 316, []⟩, ⟨digit, 315, []⟩]),
  (295, [⟨upTo4, 296, []⟩]),
  (296, [⟨digit, 297, []⟩]),
  (297, [⟨byte 46, 298, []⟩]),
  (298, [⟨byte 2, 299, []⟩, ⟨byte 48, 301, []⟩, ⟨byte 49, 310, []⟩, ⟨byte 50, 312, []⟩, ⟨digit, 311, []⟩]),
  (299, [⟨upTo4, 300, []⟩]),
  (300, [⟨digit, 301, []⟩]),
  (301, [⟨byte 46, 302, []⟩]),
  (302, [⟨byte 2, 303, []⟩, ⟨byte 48, 305, []⟩, ⟨byte 49, 306, []⟩, ⟨byte 50, 308, []⟩, ⟨digit, 307, []⟩]),
  (303, [⟨upTo4, 304, []⟩]),
  (304, [⟨digit, 305, []⟩]),
  (305, [⟨byte 93, 512, []⟩]),
  (306, [⟨byte 93, 512, []⟩, ⟨digit, 307, []⟩]),
  (307, [⟨byte 93, 512, []⟩, ⟨digit, 305, []⟩]),
  (308, [⟨byte 53, 309, []⟩, ⟨byte 93, 512, []⟩, ⟨digit, 305, []⟩]),
  (309, [⟨byte 93, 512, []⟩, ⟨upTo5, 305, []⟩]),
  (310, [⟨byte 46, 302, []⟩, ⟨digit, 311, []⟩]),
  (311, [⟨byte 46, 302, []⟩, ⟨digit, 301, []⟩]),
  (312, [⟨byte 46, 302, []⟩, ⟨byte 53, 313, []⟩, ⟨digit, 301, []⟩]),
  (313, [⟨byte 46, 302, []⟩, ⟨upTo5, 301, []⟩]),
  (314, [⟨byte 46, 298, []⟩, ⟨digit, 315, []⟩]),
  (315, [⟨byte 46, 298, []⟩, ⟨digit, 297, []⟩]),
  (316, [⟨byte 46, 298, []⟩, ⟨byte 53, 317, []⟩, ⟨digit, 297, []⟩]),
  (317, [⟨byte 46, 298, []⟩, ⟨upTo5, 297, []⟩]),
  (318, [⟨byte 46, 294, []⟩, ⟨byte 58, 322, []⟩, ⟨xdigit, 319, []⟩]),
  (319, [⟨byte 58, 322, []⟩, ⟨xdigit, 320, []⟩]),
  (320, [⟨byte 58, 322, []⟩, ⟨xdigit, 321, []⟩]),
  (321, [⟨byte 58, 322, []⟩]),
  (322, [⟨byte 58, 305, []⟩, ⟨xdigit, 323, []⟩]),
  (323, [⟨byte 93, 512, []⟩, ⟨xdigit, 324, []⟩]),
  (324, [⟨byte 93, 512, []⟩, ⟨xdigit, 325, []⟩]),
  (325, [⟨byte 93, 512, []⟩, ⟨xdigit, 305, []⟩]),
  (326, [⟨byte 46, 294, []⟩, ⟨byte 58, 322, []⟩, ⟨digit, 327, []⟩, ⟨xdigit, 319, []⟩]),
  (327, [⟨byte 46, 294, []⟩, ⟨byte 58, 322, []⟩, ⟨digit, 328, []⟩, ⟨xdigit, 320, []⟩]),
  (328, [⟨byte 46, 294, []⟩, ⟨byte 58, 322, []⟩, ⟨xdigit, 321, []⟩]),
  (329, [⟨byte 46, 294, []⟩, ⟨byte 53, 331, []⟩, ⟨byte 58, 322, []⟩, ⟨digit, 330, []⟩, ⟨xdigit, 319, []⟩]),
  (330, [⟨byte 46, 294, []⟩, ⟨byte 58, 322, []⟩, ⟨xdigit, 320, []⟩]),
  (331, [⟨byte 46, 294, []⟩, ⟨byte 58, 322, []⟩, ⟨upTo5, 328, []⟩, ⟨xdigit, 320, []⟩]),
  (332, [⟨byte 46, 294, []⟩, ⟨byte 58, 322, []⟩, ⟨digit, 330, []⟩, ⟨xdigit, 319, []⟩]),
  (333, [⟨xdigit, 323, []⟩]),
  (334, [⟨byte 58, 322, []⟩, ⟨xdigit, 319, []⟩]),
  (335, [⟨byte 2, 291, []⟩, ⟨byte 48, 336, []⟩, ⟨byte 49, 340, []⟩, ⟨byte 50, 343, []⟩, ⟨digit, 346, []⟩,
    ⟨xdigit, 347, []⟩]),
  (336, [⟨byte 46, 294, []⟩, ⟨byte 58, 333, []⟩, ⟨xdigit, 337, []⟩]),
  (337, [⟨byte 58, 333, []⟩, ⟨xdigit, 338, []⟩]),
  (338, [⟨byte 58, 333, []⟩, ⟨xdigit, 339, []⟩]),
  (339, [⟨byte 58, 333, []⟩]),
  (340, [⟨byte 46, 294, []⟩, ⟨byte 58, 333, []⟩, ⟨digit, 341, []⟩, ⟨xdigit, 337, []⟩]),
  (341, [⟨byte 46, 294, []⟩, ⟨byte 58, 333, []⟩, ⟨digit, 342, []⟩, ⟨xdigit, 338, []⟩]),
  (342, [⟨byte 46, 294, []⟩, ⟨byte 58, 333, []⟩, ⟨xdigit, 339, []⟩]),
  (343, [⟨byte 46, 294, []⟩, ⟨byte 53, 345, []⟩, ⟨byte 58, 333, []⟩, ⟨digit, 344, []⟩, ⟨xdigit, 337, []⟩]),
  (344, [⟨byte 46, 294, []⟩, ⟨byte 58, 333, []⟩, ⟨xdigit, 338, []⟩]),
  (345, [⟨byte 46, 294, []⟩, ⟨byte 58, 333, []⟩, ⟨upTo5, 342, []⟩, ⟨xdigit, 338, []⟩]),
  (346, [⟨byte 46, 294, []⟩, ⟨byte 58, 333, []⟩, ⟨digit, 344, []⟩, ⟨xdigit, 337, []⟩]),
  (347, [⟨byte 58, 333, []⟩, ⟨xdigit, 337, []⟩]),
  (348, [⟨xdigit, 349, []⟩]),
  (349, [⟨byte 58, 335, []⟩, ⟨xdigit, 350, []⟩]),
  (350, [⟨byte 58, 335, []⟩, ⟨xdigit, 351, []⟩]),
  (351, [⟨byte 58, 335, []⟩, ⟨xdigit, 352, []⟩]),
  (352, [⟨byte 58, 335, []⟩]),
  (353, [⟨xdigit, 354, []⟩]),
  (354, [⟨byte 58, 348, []⟩, ⟨xdigit, 355, []⟩]),
  (355, [⟨byte 58, 348, []⟩, ⟨xdigit, 356, []⟩]),
  (356, [⟨byte 58, 348, []⟩, ⟨xdigit, 357, []⟩]),
  (357, [⟨byte 58, 348, []⟩]),
  (358, [⟨xdigit, 359, []⟩]),
  (359, [⟨byte 58, 353, []⟩, ⟨xdigit, 360, []⟩]),
  (360, [⟨byte 58, 353, []⟩, ⟨xdigit, 361, []⟩]),
  (361, [⟨byte 58, 353, []⟩, ⟨xdigit, 362, []⟩]),
  (362, [⟨byte 58, 353, []⟩]),
  (363, [⟨xdigit, 364, []⟩]),
  (364, [⟨byte 58, 358, []⟩, ⟨xdigit, 365, []⟩]),
  (365, [⟨byte 58, 358, []⟩, ⟨xdigit, 366, []⟩]),
  (366, [⟨byte 58, 358, []⟩, ⟨xdigit, 367, []⟩]),
  (367, [⟨byte 58, 358, []⟩]),
  (368, [⟨byte 58, 369, []⟩]),
  (369, [⟨byte 2, 291, []⟩, ⟨byte 48, 370, []⟩, ⟨byte 49, 439, []⟩, ⟨byte 50, 442, []⟩, ⟨byte 93, 512, []⟩,
    ⟨digit, 445, []⟩, ⟨xdigit, 446, []⟩]),
  (370, [⟨byte 46, 294, []⟩, ⟨byte 58, 374, []⟩, ⟨byte 93, 512, []⟩, ⟨xdigit, 371, []⟩]),
  (371, [⟨byte 58, 374, []⟩, ⟨byte 93, 512, []⟩, ⟨xdigit, 372, []⟩]),
  (372, [⟨byte 58, 374, []⟩, ⟨byte 93, 512, []⟩, ⟨xdigit, 373, []⟩]),
  (373, [⟨byte 58, 374, []⟩, ⟨byte 93, 512, []⟩]),
  (374, [⟨byte 2, 291, []⟩, ⟨byte 48, 375, []⟩, ⟨byte 49, 431, []⟩, ⟨byte 50, 434, []⟩, ⟨digit, 437, []⟩,
    ⟨xdigit, 438, []⟩]),
  (375, [⟨byte 46, 294, []⟩, ⟨byte 58, 379, []⟩, ⟨byte 93, 512, []⟩, ⟨xdigit, 376, []⟩]),
  (376, [⟨byte 58, 379, []⟩, ⟨byte 93, 512, []⟩, ⟨xdigit, 377, []⟩]),
  (377, [⟨byte 58, 379, []⟩, ⟨byte 93, 512, []⟩, ⟨xdigit, 378, []⟩]),
  (378, [⟨byte 58, 379, []⟩, ⟨byte 93, 512, []⟩]),
  (379, [⟨byte 2, 291, []⟩, ⟨byte 48, 380, []⟩, ⟨byte 49, 423, []⟩, ⟨byte 50, 426, []⟩, ⟨digit, 429, []⟩,
    ⟨xdigit, 430, []⟩]),
  (380, [⟨byte 46, 294, []⟩, ⟨byte 58, 384, []⟩, ⟨byte 93, 512, []⟩, ⟨xdigit, 381, []⟩]),
  (381, [⟨byte 58, 384, []⟩, ⟨byte 93, 512, []⟩, ⟨xdigit, 382, []⟩]),
  (382, [⟨byte 58, 384, []⟩, ⟨byte 93, 512, []⟩, ⟨xdigit, 383, []⟩]),
  (383, [⟨byte 58, 384, []⟩, ⟨byte 93, 512, []⟩]),
  (384, [⟨byte 2, 291, []⟩, ⟨byte 48, 385, []⟩, ⟨byte 49, 415, []⟩, ⟨byte 50, 418, []⟩, ⟨digit, 421, []⟩,
    ⟨xdigit, 422, []⟩]),
  (385, [⟨byte 46, 294, []⟩, ⟨byte 58, 389, []⟩, ⟨byte 93, 512, []⟩, ⟨xdigit, 386, []⟩]),
  (386, [⟨byte 58, 389, []⟩, ⟨byte 93, 512, []⟩, ⟨xdigit, 387, []⟩]),
  (387, [⟨byte 58, 389, []⟩, ⟨byte 93, 512, []⟩, ⟨xdigit, 388, []⟩]),
  (388, [⟨byte 58, 389, []⟩, ⟨byte 93, 512, []⟩]),
  (389, [⟨byte 2, 291, []⟩, ⟨byte 48, 390, []⟩, ⟨byte 49, 407, []⟩, ⟨byte 50, 410, []⟩, ⟨digit, 413, []⟩,
    ⟨xdigit, 414, []⟩]),
  (390, [⟨byte 46, 294, []⟩, ⟨byte 58, 394, []⟩, ⟨byte 93, 512, []⟩, ⟨xdigit, 391, []⟩]),
  (391, [⟨byte 58, 394, []⟩, ⟨byte 93, 512, []⟩, ⟨xdigit, 392, []⟩]),
  (392, [⟨byte 58, 394, []⟩, ⟨byte 93, 512, []⟩, ⟨xdigit, 393, []⟩]),
  (393, [⟨byte 58, 394, []⟩, ⟨byte 93, 512, []⟩]),
  (394, [⟨byte 2, 291, []⟩, ⟨byte 48, 395, []⟩, ⟨byte 49, 399, []⟩, ⟨byte 50, 402, []⟩, ⟨digit, 405, []⟩,
    ⟨xdigit, 406, []⟩]),
  (395, [⟨byte 46, 294, []⟩, ⟨byte 58, 333, []⟩, ⟨byte 93, 512, []⟩, ⟨xdigit, 396, []⟩]),
  (396, [⟨byte 58, 333, []⟩, ⟨byte 93, 512, []⟩, ⟨xdigit, 397, []⟩]),
  (397, [⟨byte 58, 333, []⟩, ⟨byte 93, 512, []⟩, ⟨xdigit, 398, []⟩]),
  (398, [⟨byte 58, 333, []⟩, ⟨byte 93, 512, []⟩]),
  (399, [⟨byte 46, 294, []⟩, ⟨byte 58, 333, []⟩, ⟨byte 93, 512, []⟩, ⟨digit, 400, []⟩, ⟨xdigit, 396, []⟩]),
  (400, [⟨byte 46, 294, []⟩, ⟨byte 58, 333, []⟩, ⟨byte 93, 512, []⟩, ⟨digit, 401, []⟩, ⟨xdigit, 397, []⟩]),
  (401, [⟨byte 46, 294, []⟩, ⟨byte 58, 333, []⟩, ⟨byte 93, 512, []⟩, ⟨xdigit, 398, []⟩]),
  (402, [⟨byte 46, 294, []⟩, ⟨byte 53, 404, []⟩, ⟨byte 58, 333, []⟩, ⟨byte 93, 512, []⟩, ⟨digit, 403, []⟩,
    ⟨xdigit, 396, []⟩]),
  (403, [⟨byte 46, 294, []⟩, ⟨byte 58, 333, []⟩, ⟨byte 93, 512, []⟩, ⟨xdigit, 397, []⟩]),
  (404, [⟨byte 46, 294, []⟩, ⟨byte 58, 333, []⟩, ⟨byte 93, 512, []⟩, ⟨upTo5, 401, []⟩, ⟨xdigit, 397, []⟩]),
  (405, [⟨byte 46, 294, []⟩, ⟨byte 58, 333, []⟩, ⟨byte 93, 512, []⟩, ⟨digit, 403, []⟩, ⟨xdigit, 396, []⟩]),
  (406, [⟨byte 58, 333, []⟩, ⟨byte 93, 512, []⟩, ⟨xdigit, 396, []⟩]),
  (407, [⟨byte 46, 294, []⟩, ⟨byte 58, 394, []⟩, ⟨byte 93, 512, []⟩, ⟨digit, 408, []⟩, ⟨xdigit, 391, []⟩]),
  (408, [⟨byte 46, 294, []⟩, ⟨byte 58, 394, []⟩, ⟨byte 93, 512, []⟩, ⟨digit, 409, []⟩, ⟨xdigit, 392, []⟩]),
  (409, [⟨byte 46, 294, []⟩, ⟨byte 58, 394, []⟩, ⟨byte 93, 512, []⟩, ⟨xdigit, 393, []⟩]),
  (410, [⟨byte 46, 294, []⟩, ⟨byte 53, 412, []⟩, ⟨byte 58, 394, []⟩, ⟨byte 93, 512, []⟩, ⟨digit, 411, []⟩,
    ⟨xdigit, 391, []⟩]),
  (411, [⟨byte 46, 294, []⟩, ⟨byte 58, 394, []⟩, ⟨byte 93, 512, []⟩, ⟨xdigit, 392, []⟩]),
  (412, [⟨byte 46, 294, []⟩, ⟨byte 58, 394, []⟩, ⟨byte 93, 512, []⟩, ⟨upTo5, 409, []⟩, ⟨xdigit, 392, []⟩]),
  (413, [⟨byte 46, 294, []⟩, ⟨byte 58, 394, []⟩, ⟨byte 93, 512, []⟩, ⟨digit, 411, []⟩, ⟨xdigit, 391, []⟩]),
  (414, [⟨byte 58, 394, []⟩, ⟨byte 93, 512, []⟩, ⟨xdigit, 391, []⟩]),
  (415, [⟨byte 46, 294, []⟩, ⟨byte 58, 389, []⟩, ⟨byte 93, 512, []⟩, ⟨digit, 416, []⟩, ⟨xdigit, 386, []⟩]),
  (416, [⟨byte 46, 294, []⟩, ⟨byte 58, 389, []⟩, ⟨byte 93, 512, []⟩, ⟨digit, 417, []⟩, ⟨xdigit, 387, []⟩]),
  (417, [⟨byte 46, 294, []⟩, ⟨byte 58, 389, []⟩, ⟨byte 93, 512, []⟩, ⟨xdigit, 388, []⟩]),
  (418, [⟨byte 46, 294, []⟩, ⟨byte 53, 420, []⟩, ⟨byte 58, 389, []⟩, ⟨byte 93, 512, []⟩, ⟨digit, 419, []⟩,
    ⟨xdigit, 386, []⟩]),
  (419, [⟨byte 46, 294, []⟩, ⟨byte 58, 389, []⟩, ⟨byte 93, 512, []⟩, ⟨xdigit, 387, []⟩]),
  (420, [⟨byte 46, 294, []⟩, ⟨byte 58, 389, []⟩, ⟨byte 93, 512, []⟩, ⟨upTo5, 417, []⟩, ⟨xdigit, 387, []⟩]),
  (421, [⟨byte 46, 294, []⟩, ⟨byte 58, 389, []⟩, ⟨byte 93, 512, []⟩, ⟨digit, 419, []⟩, ⟨xdigit, 386, []⟩]),
  (422, [⟨byte 58, 389, []⟩, ⟨byte 93, 512, []⟩, ⟨xdigit, 386, []⟩]),
  (423, [⟨byte 46, 294, []⟩, ⟨byte 58, 384, []⟩, ⟨byte 93, 512, []⟩, ⟨digit, 424, []⟩, ⟨xdigit, 381, []⟩]),
  (424, [⟨byte 46, 294, []⟩, ⟨byte 58, 384, []⟩, ⟨byte 93, 512, []⟩, ⟨digit, 425, []⟩, ⟨xdigit, 382, []⟩]),
  (425, [⟨byte 46, 294, []⟩, ⟨byte 58, 384, []⟩, ⟨byte 93, 512, []⟩, ⟨xdigit, 383, []⟩]),
  (426, [⟨byte 46, 294, []⟩, ⟨byte 53, 428, []⟩, ⟨byte 58, 384, []⟩, ⟨byte 93, 512, []⟩, ⟨digit, 427, []⟩,
    ⟨xdigit, 381, []⟩]),
  (427, [⟨byte 46, 294, []⟩, ⟨byte 58, 384, []⟩, ⟨byte 93, 512, []⟩, ⟨xdigit, 382, []⟩]),
  (428, [⟨byte 46, 294, []⟩, ⟨byte 58, 384, []⟩, ⟨byte 93, 512, []⟩, ⟨upTo5, 425, []⟩, ⟨xdigit, 382, []⟩]),
  (429, [⟨byte 46, 294, []⟩, ⟨byte 58, 384, []⟩, ⟨byte 93, 512, []⟩, ⟨digit, 427, []⟩, ⟨xdigit, 381, []⟩]),
  (430, [⟨byte 58, 384, []⟩, ⟨byte 93, 512, []⟩, ⟨xdigit, 381, []⟩]),
  (431, [⟨byte 46, 294, []⟩, ⟨byte 58, 379, []⟩, ⟨byte 93, 512, []⟩, ⟨digit, 432, []⟩, ⟨xdigit, 376, []⟩]),
  (432, [⟨byte 46, 294, []⟩, ⟨byte 58, 379, []⟩, ⟨byte 93, 512, []⟩, ⟨digit, 433, []⟩, ⟨xdigit, 377, []⟩]),
  (433, [⟨byte 46, 294, []⟩, ⟨byte 58, 379, []⟩, ⟨byte 93, 512, []⟩, ⟨xdigit, 378, []⟩]),
  (434, [⟨byte 46, 294, []⟩, ⟨byte 53, 436, []⟩, ⟨byte 58, 379, []⟩, ⟨byte 93, 512, []⟩, ⟨digit, 435, []⟩,
    ⟨xdigit, 376, []⟩]),
  (435, [⟨byte 46, 294, []⟩, ⟨byte 58, 379, []⟩, ⟨byte 93, 512, []⟩, ⟨xdigit, 377, []⟩]),
  (436, [⟨byte 46, 294, []⟩, ⟨byte 58, 379, []⟩, ⟨byte 93, 512, []⟩, ⟨upTo5, 433, []⟩, ⟨xdigit, 377, []⟩]),
  (437, [⟨byte 46, 294, []⟩, ⟨byte 58, 379, []⟩, ⟨byte 93, 512, []⟩, ⟨digit, 435, []⟩, ⟨xdigit, 376, []⟩]),
  (438, [⟨byte 58, 379, []⟩, ⟨byte 93, 512, []⟩, ⟨xdigit, 376, []⟩]),
  (439, [⟨byte 46, 294, []⟩, ⟨byte 58, 374, []⟩, ⟨byte 93, 512, []⟩, ⟨digit, 440, []⟩, ⟨xdigit, 371, []⟩]),
  (440, [⟨byte 46, 294, []⟩, ⟨byte 58, 374, []⟩, ⟨byte 93, 512, []⟩, ⟨digit, 441, []⟩, ⟨xdigit, 372, []⟩]),
  (441, [⟨byte 46, 294, []⟩, ⟨byte 58, 374, []⟩, ⟨byte 93, 512, []⟩, ⟨xdigit, 373, []⟩]),
  (442, [⟨byte 46, 294, []⟩, ⟨byte 53, 444, []⟩, ⟨byte 58, 374, []⟩, ⟨byte 93, 512, []⟩, ⟨digit, 443, []⟩,
    ⟨xdigit, 371, []⟩]),
  (443, [⟨byte 46, 294, []⟩, ⟨byte 58, 374, []⟩, ⟨byte 93, 512, []⟩, ⟨xdigit, 372, []⟩]),
  (444, [⟨byte 46, 294, []⟩, ⟨byte 58, 374, []⟩, ⟨byte 93, 512, []⟩, ⟨upTo5, 441, []⟩, ⟨xdigit, 372, []⟩]),
  (445, [⟨byte 46, 294, []⟩, ⟨byte 58, 374, []⟩, ⟨byte 93, 512, []⟩, ⟨digit, 443, []⟩, ⟨xdigit, 371, []⟩]),
  (446, [⟨byte 58, 374, []⟩, ⟨byte 93, 512, []⟩, ⟨xdigit, 371, []⟩]),
  (447, [⟨xdigit, 448, []⟩]),
  (448, [⟨byte 46, 449, []⟩, ⟨xdigit, 448, []⟩]),
  (449, [⟨userChar, 450, []⟩]),
  (450, [⟨byte 93, 512, []⟩, ⟨userChar, 450, []⟩]),
  (451, [⟨byte 35, 453, []⟩, ⟨byte 37, 3, []⟩, ⟨byte 47, 458, []⟩, ⟨byte 63, 456, []⟩, ⟨alpha, 508, [.mark]⟩,
    ⟨segmentChar, 452, []⟩]),
  (452, [⟨byte 35, 453, []⟩, ⟨byte 37, 3, []⟩, ⟨byte 47, 455, []⟩, ⟨byte 63, 456, []⟩, ⟨segmentChar, 452, []⟩]),
  (453, [⟨byte 37, 1, [.mark]⟩, ⟨queryChar, 454, [.mark]⟩]),
  (454, [⟨byte 37, 1, []⟩, ⟨queryChar, 454, []⟩]),
  (455, [⟨byte 35, 453, []⟩, ⟨byte 37, 5, []⟩, ⟨byte 63, 456, []⟩, ⟨pathChar, 455, []⟩]),
  (456, [⟨byte 35, 453, [.mark, .saveQuery]⟩, ⟨byte 37, 7, [.mark]⟩, ⟨queryChar, 457, [.mark]⟩]),
  (457, [⟨byte 35, 453, [.saveQuery]⟩, ⟨byte 37, 7, []⟩, ⟨queryChar, 457, []⟩]),
  (458, [⟨byte 35, 453, []⟩, ⟨byte 37, 5, []⟩, ⟨byte 47, 459, []⟩, ⟨byte 63, 456, []⟩, ⟨pathChar, 455, []⟩]),
  (459, [⟨byte 2, 9, [.mark]⟩, ⟨byte 35, 453, [.mark, .saveHost]⟩, ⟨byte 37, 31, [.mark]⟩,
    ⟨byte 47, 455, [.mark, .saveHost]⟩, ⟨byte 48, 490, [.mark]⟩, ⟨byte 49, 504, [.mark]⟩, ⟨byte 50, 506, [.mark]⟩,
    ⟨byte 58, 468, [.mark, .saveHost]⟩, ⟨byte 63, 456, [.mark, .saveHost]⟩, ⟨byte 64, 469, [.mark, .saveUserinfo]⟩,
    ⟨byte 91, 38, [.mark]⟩, ⟨digit, 505, [.mark]⟩, ⟨nameChar, 467, [.mark]⟩]),
  (460, [⟨byte 35, 453, [.saveHost]⟩, ⟨byte 47, 455, [.saveHost]⟩, ⟨byte 58, 461, [.saveHost]⟩,
    ⟨byte 63, 456, [.saveHost]⟩]),
  (461, [⟨byte 35, 453, [.mark, .savePort]⟩, ⟨byte 47, 455, [.mark, .savePort]⟩, ⟨byte 63, 456, [.mark, .savePort]⟩,
    ⟨digit, 462, [.mark]⟩]),
  (462, [⟨byte 35, 453, [.savePort]⟩, ⟨byte 47, 455, [.savePort]⟩, ⟨byte 63, 456, [.savePort]⟩, ⟨digit, 462, []⟩]),
  (463, [⟨byte 35, 453, [.saveHost]⟩, ⟨byte 47, 455, [.saveHost]⟩, ⟨byte 58, 461, [.saveHost]⟩,
    ⟨byte 63, 456, [.saveHost]⟩, ⟨digit, 464, []⟩]),
  (464, [⟨byte 35, 453, [.saveHost]⟩, ⟨byte 47, 455, [.saveHost]⟩, ⟨byte 58, 461, [.saveHost]⟩,
    ⟨byte 63, 456, [.saveHost]⟩, ⟨digit, 460, []⟩]),
  (465, [⟨byte 35, 453, [.saveHost]⟩, ⟨byte 47, 455, [.saveHost]⟩, ⟨byte 53, 466, []⟩, ⟨byte 58, 461, [.saveHost]⟩,
    ⟨byte 63, 456, [.saveHost]⟩, ⟨digit, 460, []⟩]),
  (466, [⟨byte 35, 453, [.saveHost]⟩, ⟨byte 47, 455, [.saveHost]⟩, ⟨byte 58, 461, [.saveHost]⟩,
    ⟨byte 63, 456, [.saveHost]⟩, ⟨upTo5, 460, []⟩]),
  (467, [⟨byte 35, 453, [.saveHost]⟩, ⟨byte 37, 31, []⟩, ⟨byte 47, 455, [.saveHost]⟩, ⟨byte 58, 468, [.saveHost]⟩,
    ⟨byte 63, 456, [.saveHost]⟩, ⟨byte 64, 469, [.saveUserinfo]⟩, ⟨nameChar, 467, []⟩]),
  (468, [⟨byte 35, 453, [.mark, .savePort]⟩, ⟨byte 37, 34, []⟩, ⟨byte 47, 455, [.mark, .savePort]⟩,
    ⟨byte 63, 456, [.mark, .savePort]⟩, ⟨byte 64, 469, [.saveUserinfo]⟩, ⟨digit, 489, [.mark]⟩, ⟨userChar, 33, []⟩]),
  (469, [⟨byte 2, 9, [.mark]⟩, ⟨byte 35, 453, [.mark, .saveHost]⟩, ⟨byte 37, 36, [.mark]⟩,
    ⟨byte 47, 455, [.mark, .saveHost]⟩, ⟨byte 48, 471, [.mark]⟩, ⟨byte 49, 485, [.mark]⟩, ⟨byte 50, 487, [.mark]⟩,
    ⟨byte 58, 461, [.mark, .saveHost]⟩, ⟨byte 63, 456, [.mark, .saveHost]⟩, ⟨byte 91, 38, [.mark]⟩,
    ⟨digit, 486, [.mark]⟩, ⟨nameChar, 470, [.mark]⟩]),
  (470, [⟨byte 35, 453, [.saveHost]⟩, ⟨byte 37, 36, []⟩, ⟨byte 47, 455, [.saveHost]⟩, ⟨byte 58, 461, [.saveHost]⟩,
    ⟨byte 63, 456, [.saveHost]⟩, ⟨nameChar, 470, []⟩]),
  (471, [⟨byte 35, 453, [.saveHost]⟩, ⟨byte 37, 36, []⟩, ⟨byte 46, 472, []⟩, ⟨byte 47, 455, [.saveHost]⟩,
    ⟨byte 58, 461, [.saveHost]⟩, ⟨byte 63, 456, [.saveHost]⟩, ⟨nameChar, 470, []⟩]),
  (472, [⟨byte 2, 13, []⟩, ⟨byte 35, 453, [.saveHost]⟩, ⟨byte 37, 36, []⟩, ⟨byte 47, 455, [.saveHost]⟩,
    ⟨byte 48, 473, []⟩, ⟨byte 49, 481, []⟩, ⟨byte 50, 483, []⟩, ⟨byte 58, 461, [.saveHost]⟩,
    ⟨byte 63, 456, [.saveHost]⟩, ⟨digit, 482, []⟩, ⟨nameChar, 470, []⟩]),
  (473, [⟨byte 35, 453, [.saveHost]⟩, ⟨byte 37, 36, []⟩, ⟨byte 46, 474, []⟩, ⟨byte 47, 455, [.saveHost]⟩,
    ⟨byte 58, 461, [.saveHost]⟩, ⟨byte 63, 456, [.saveHost]⟩, ⟨nameChar, 470, []⟩]),
  (474, [⟨byte 2, 17, []⟩, ⟨byte 35, 453, [.saveHost]⟩, ⟨byte 37, 36, []⟩, ⟨byte 47, 455, [.saveHost]⟩,
    ⟨byte 48, 475, []⟩, ⟨byte 49, 477, []⟩, ⟨byte 50, 479, []⟩, ⟨byte 58, 461, [.saveHost]⟩,
    ⟨byte 63, 456, [.saveHost]⟩, ⟨digit, 478, []⟩, ⟨nameChar, 470, []⟩]),
  (475, [⟨byte 35, 453, [.saveHost]⟩, ⟨byte 37, 36, []⟩, ⟨byte 46, 476, []⟩, ⟨byte 47, 455, [.saveHost]⟩,
    ⟨byte 58, 461, [.saveHost]⟩, ⟨byte 63, 456, [.saveHost]⟩, ⟨nameChar, 470, []⟩]),
  (476, [⟨byte 2, 21, []⟩, ⟨byte 35, 453, [.saveHost]⟩, ⟨byte 37, 36, []⟩, ⟨byte 47, 455, [.saveHost]⟩,
    ⟨byte 58, 461, [.saveHost]⟩, ⟨byte 63, 456, [.saveHost]⟩, ⟨nameChar, 470, []⟩]),
  (477, [⟨byte 35, 453, [.saveHost]⟩, ⟨byte 37, 36, []⟩, ⟨byte 46, 476, []⟩, ⟨byte 47, 455, [.saveHost]⟩,
    ⟨byte 58, 461, [.saveHost]⟩, ⟨byte 63, 456, [.saveHost]⟩, ⟨digit, 478, []⟩, ⟨nameChar, 470, []⟩]),
  (478, [⟨byte 35, 453, [.saveHost]⟩, ⟨byte 37, 36, []⟩, ⟨byte 46, 476, []⟩, ⟨byte 47, 455, [.saveHost]⟩,
    ⟨byte 58, 461, [.saveHost]⟩, ⟨byte 63, 456, [.saveHost]⟩, ⟨digit, 475, []⟩, ⟨nameChar, 470, []⟩]),
  (479, [⟨byte 35, 453, [.saveHost]⟩, ⟨byte 37, 36, []⟩, ⟨byte 46, 476, []⟩, ⟨byte 47, 455, [.saveHost]⟩,
    ⟨byte 53, 480, []⟩, ⟨byte 58, 461, [.saveHost]⟩, ⟨byte 63, 456, [.saveHost]⟩, ⟨digit, 475, []⟩,
    ⟨nameChar, 470, []⟩]),
  (480, [⟨byte 35, 453, [.saveHost]⟩, ⟨byte 37, 36, []⟩, ⟨byte 46, 476, []⟩, ⟨byte 47, 455, [.saveHost]⟩,
    ⟨byte 58, 461, [.saveHost]⟩, ⟨byte 63, 456, [.saveHost]⟩, ⟨upTo5, 475, []⟩, ⟨nameChar, 470, []⟩]),
  (481, [⟨byte 35, 453, [.saveHost]⟩, ⟨byte 37, 36, []⟩, ⟨byte 46, 474, []⟩, ⟨byte 47, 455, [.saveHost]⟩,
    ⟨byte 58, 461, [.saveHost]⟩, ⟨byte 63, 456, [.saveHost]⟩, ⟨digit, 482, []⟩, ⟨nameChar, 470, []⟩]),
  (482, [⟨byte 35, 453, [.saveHost]⟩, ⟨byte 37, 36, []⟩, ⟨byte 46, 474, []⟩, ⟨byte 47, 455, [.saveHost]⟩,
    ⟨byte 58, 461, [.saveHost]⟩, ⟨byte 63, 456, [.saveHost]⟩, ⟨digit, 473, []⟩, ⟨nameChar, 470, []⟩]),
  (483, [⟨byte 35, 453, [.saveHost]⟩, ⟨byte 37, 36, []⟩, ⟨byte 46, 474, []⟩, ⟨byte 47, 455, [.saveHost]⟩,
    ⟨byte 53, 484, []⟩, ⟨byte 58, 461, [.saveHost]⟩, ⟨byte 63, 456, [.saveHost]⟩, ⟨digit, 473, []⟩,
    ⟨nameChar, 470, []⟩]),
  (484, [⟨byte 35, 453, [.saveHost]⟩, ⟨byte 37, 36, []⟩, ⟨byte 46, 474, []⟩, ⟨byte 47, 455, [.saveHost]⟩,
    ⟨byte 58, 461, [.saveHost]⟩, ⟨byte 63, 456, [.saveHost]⟩, ⟨upTo5, 473, []⟩, ⟨nameChar, 470, []⟩]),
  (485, [⟨byte 35, 453, [.saveHost]⟩, ⟨byte 37, 36, []⟩, ⟨byte 46, 472, []⟩, ⟨byte 47, 455, [.saveHost]⟩,
    ⟨byte 58, 461, [.saveHost]⟩, ⟨byte 63, 456, [.saveHost]⟩, ⟨digit, 486, []⟩, ⟨nameChar, 470, []⟩]),
  (486, [⟨byte 35, 453, [.saveHost]⟩, ⟨byte 37, 36, []⟩, ⟨byte 46, 472, []⟩, ⟨byte 47, 455, [.saveHost]⟩,
    ⟨byte 58, 461, [.saveHost]⟩, ⟨byte 63, 456, [.saveHost]⟩, ⟨digit, 471, []⟩, ⟨nameChar, 470, []⟩]),
  (487, [⟨byte 35, 453, [.saveHost]⟩, ⟨byte 37, 36, []⟩, ⟨byte 46, 472, []⟩, ⟨byte 47, 455, [.saveHost]⟩,
    ⟨byte 53, 488, []⟩, ⟨byte 58, 461, [.saveHost]⟩, ⟨byte 63, 456, [.saveHost]⟩, ⟨digit, 471, []⟩,
    ⟨nameChar, 470, []⟩]),
  (488, [⟨byte 35, 453, [.saveHost]⟩, ⟨byte 37, 36, []⟩, ⟨byte 46, 472, []⟩, ⟨byte 47, 455, [.saveHost]⟩,
    ⟨byte 58, 461, [.saveHost]⟩, ⟨byte 63, 456, [.saveHost]⟩, ⟨upTo5, 471, []⟩, ⟨nameChar, 470, []⟩]),
  (489, [⟨byte 35, 453, [.savePort]⟩, ⟨byte 37, 34, []⟩, ⟨byte 47, 455, [.savePort]⟩, ⟨byte 63, 456, [.savePort]⟩,
    ⟨byte 64, 469, [.saveUserinfo]⟩, ⟨digit, 489, []⟩, ⟨userChar, 33, []⟩]),
  (490, [⟨byte 35, 453, [.saveHost]⟩, ⟨byte 37, 31, []⟩, ⟨byte 46, 491, []⟩, ⟨byte 47, 455, [.saveHost]⟩,
    ⟨byte 58, 468, [.saveHost]⟩, ⟨byte 63, 456, [.saveHost]⟩, ⟨byte 64, 469, [.saveUserinfo]⟩, ⟨nameChar, 467, []⟩]),
  (491, [⟨byte 2, 13, []⟩, ⟨byte 35, 453, [.saveHost]⟩, ⟨byte 37, 31, []⟩, ⟨byte 47, 455, [.saveHost]⟩,
    ⟨byte 48, 492, []⟩, ⟨byte 49, 500, []⟩, ⟨byte 50, 502, []⟩, ⟨byte 58, 468, [.saveHost]⟩,
    ⟨byte 63, 456, [.saveHost]⟩, ⟨byte 64, 469, [.saveUserinfo]⟩, ⟨digit, 501, []⟩, ⟨nameChar, 467, []⟩]),
  (492, [⟨byte 35, 453, [.saveHost]⟩, ⟨byte 37, 31, []⟩, ⟨byte 46, 493, []⟩, ⟨byte 47, 455, [.saveHost]⟩,
    ⟨byte 58, 468, [.saveHost]⟩, ⟨byte 63, 456, [.saveHost]⟩, ⟨byte 64, 469, [.saveUserinfo]⟩, ⟨nameChar, 467, []⟩]),
  (493, [⟨byte 2, 17, []⟩, ⟨byte 35, 453, [.saveHost]⟩, ⟨byte 37, 31, []⟩, ⟨byte 47, 455, [.saveHost]⟩,
    ⟨byte 48, 494, []⟩, ⟨byte 49, 496, []⟩, ⟨byte 50, 498, []⟩, ⟨byte 58, 468, [.saveHost]⟩,
    ⟨byte 63, 456, [.saveHost]⟩, ⟨byte 64, 469, [.saveUserinfo]⟩, ⟨digit, 497, []⟩, ⟨nameChar, 467, []⟩]),
  (494, [⟨byte 35, 453, [.saveHost]⟩, ⟨byte 37, 31, []⟩, ⟨byte 46, 495, []⟩, ⟨byte 47, 455, [.saveHost]⟩,
    ⟨byte 58, 468, [.saveHost]⟩, ⟨byte 63, 456, [.saveHost]⟩, ⟨byte 64, 469, [.saveUserinfo]⟩, ⟨nameChar, 467, []⟩]),
  (495, [⟨byte 2, 21, []⟩, ⟨byte 35, 453, [.saveHost]⟩, ⟨byte 37, 31, []⟩, ⟨byte 47, 455, [.saveHost]⟩,
    ⟨byte 58, 468, [.saveHost]⟩, ⟨byte 63, 456, [.saveHost]⟩, ⟨byte 64, 469, [.saveUserinfo]⟩, ⟨nameChar, 467, []⟩]),
  (496, [⟨byte 35, 453, [.saveHost]⟩, ⟨byte 37, 31, []⟩, ⟨byte 46, 495, []⟩, ⟨byte 47, 455, [.saveHost]⟩,
    ⟨byte 58, 468, [.saveHost]⟩, ⟨byte 63, 456, [.saveHost]⟩, ⟨byte 64, 469, [.saveUserinfo]⟩, ⟨digit, 497, []⟩,
    ⟨nameChar, 467, []⟩]),
  (497, [⟨byte 35, 453, [.saveHost]⟩, ⟨byte 37, 31, []⟩, ⟨byte 46, 495, []⟩, ⟨byte 47, 455, [.saveHost]⟩,
    ⟨byte 58, 468, [.saveHost]⟩, ⟨byte 63, 456, [.saveHost]⟩, ⟨byte 64, 469, [.saveUserinfo]⟩, ⟨digit, 494, []⟩,
    ⟨nameChar, 467, []⟩]),
  (498, [⟨byte 35, 453, [.saveHost]⟩, ⟨byte 37, 31, []⟩, ⟨byte 46, 495, []⟩, ⟨byte 47, 455, [.saveHost]⟩,
    ⟨byte 53, 499, []⟩, ⟨byte 58, 468, [.saveHost]⟩, ⟨byte 63, 456, [.saveHost]⟩, ⟨byte 64, 469, [.saveUserinfo]⟩,
    ⟨digit, 494, []⟩, ⟨nameChar, 467, []⟩]),
  (499, [⟨byte 35, 453, [.saveHost]⟩, ⟨byte 37, 31, []⟩, ⟨byte 46, 495, []⟩, ⟨byte 47, 455, [.saveHost]⟩,
    ⟨byte 58, 468, [.saveHost]⟩, ⟨byte 63, 456, [.saveHost]⟩, ⟨byte 64, 469, [.saveUserinfo]⟩, ⟨upTo5, 494, []⟩,
    ⟨nameChar, 467, []⟩]),
  (500, [⟨byte 35, 453, [.saveHost]⟩, ⟨byte 37, 31, []⟩, ⟨byte 46, 493, []⟩, ⟨byte 47, 455, [.saveHost]⟩,
    ⟨byte 58, 468, [.saveHost]⟩, ⟨byte 63, 456, [.saveHost]⟩, ⟨byte 64, 469, [.saveUserinfo]⟩, ⟨digit, 501, []⟩,
    ⟨nameChar, 467, []⟩]),
  (501, [⟨byte 35, 453, [.saveHost]⟩, ⟨byte 37, 31, []⟩, ⟨byte 46, 493, []⟩, ⟨byte 47, 455, [.saveHost]⟩,
    ⟨byte 58, 468, [.saveHost]⟩, ⟨byte 63, 456, [.saveHost]⟩, ⟨byte 64, 469, [.saveUserinfo]⟩, ⟨digit, 492, []⟩,
    ⟨nameChar, 467, []⟩]),
  (502, [⟨byte 35, 453, [.saveHost]⟩, ⟨byte 37, 31, []⟩, ⟨byte 46, 493, []⟩, ⟨byte 47, 455, [.saveHost]⟩,
    ⟨byte 53, 503, []⟩, ⟨byte 58, 468, [.saveHost]⟩, ⟨byte 63, 456, [.saveHost]⟩, ⟨byte 64, 469, [.saveUserinfo]⟩,
    ⟨digit, 492, []⟩, ⟨nameChar, 467, []⟩]),
  (503, [⟨byte 35, 453, [.saveHost]⟩, ⟨byte 37, 31, []⟩, ⟨byte 46, 493, []⟩, ⟨byte 47, 455, [.saveHost]⟩,
    ⟨byte 58, 468, [.saveHost]⟩, ⟨byte 63, 456, [.saveHost]⟩, ⟨byte 64, 469, [.saveUserinfo]⟩, ⟨upTo5, 492, []⟩,
    ⟨nameChar, 467, []⟩]),
  (504, [⟨byte 35, 453, [.saveHost]⟩, ⟨byte 37, 31, []⟩, ⟨byte 46, 491, []⟩, ⟨byte 47, 455, [.saveHost]⟩,
    ⟨byte 58, 468, [.saveHost]⟩, ⟨byte 63, 456, [.saveHost]⟩, ⟨byte 64, 469, [.saveUserinfo]⟩, ⟨digit, 505, []⟩,
    ⟨nameChar, 467, []⟩]),
  (505, [⟨byte 35, 453, [.saveHost]⟩, ⟨byte 37, 31, []⟩, ⟨byte 46, 491, []⟩, ⟨byte 47, 455, [.saveHost]⟩,
    ⟨byte 58, 468, [.saveHost]⟩, ⟨byte 63, 456, [.saveHost]⟩, ⟨byte 64, 469, [.saveUserinfo]⟩, ⟨digit, 490, []⟩,
    ⟨nameChar, 467, []⟩]),
  (506, [⟨byte 35, 453, [.saveHost]⟩, ⟨byte 37, 31, []⟩, ⟨byte 46, 491, []⟩, ⟨byte 47, 455, [.saveHost]⟩,
    ⟨byte 53, 507, []⟩, ⟨byte 58, 468, [.saveHost]⟩, ⟨byte 63, 456, [.saveHost]⟩, ⟨byte 64, 469, [.saveUserinfo]⟩,
    ⟨digit, 490, []⟩, ⟨nameChar, 467, []⟩]),
  (507, [⟨byte 35, 453, [.saveHost]⟩, ⟨byte 37, 31, []⟩, ⟨byte 46, 491, []⟩, ⟨byte 47, 455, [.saveHost]⟩,
    ⟨byte 58, 468, [.saveHost]⟩, ⟨byte 63, 456, [.saveHost]⟩, ⟨byte 64, 469, [.saveUserinfo]⟩, ⟨upTo5, 490, []⟩,
    ⟨nameChar, 467, []⟩]),
  (508, [⟨byte 35, 453, []⟩, ⟨byte 37, 3, []⟩, ⟨byte 47, 455, []⟩, ⟨byte 58, 509, [.saveScheme]⟩, ⟨byte 63, 456, []⟩,
    ⟨schemeChar, 508, []⟩, ⟨segmentChar, 452, []⟩]),
  (509, [⟨byte 35, 453, []⟩, ⟨byte 37, 5, []⟩, ⟨byte 47, 510, []⟩, ⟨byte 63, 456, []⟩, ⟨pathChar, 455, []⟩]),
  (510, [⟨byte 35, 453, []⟩, ⟨byte 37, 5, []⟩, ⟨byte 47, 511, []⟩, ⟨byte 63, 456, []⟩, ⟨pathChar, 455, []⟩]),
  (511, [⟨byte 2, 229, [.mark]⟩, ⟨byte 35, 453, [.mark, .saveHost, .savePath]⟩, ⟨byte 37, 253, [.mark]⟩,
    ⟨byte 47, 513, [.mark, .saveHost]⟩, ⟨byte 48, 543, [.mark]⟩, ⟨byte 49, 557, [.mark]⟩, ⟨byte 50, 559, [.mark]⟩,
    ⟨byte 58, 521, [.mark, .saveHost]⟩, ⟨byte 63, 456, [.mark, .saveHost, .savePath]⟩,
    ⟨byte 64, 522, [.mark, .saveUserinfo]⟩, ⟨byte 91, 260, [.mark]⟩, ⟨digit, 558, [.mark]⟩, ⟨nameChar, 520, [.mark]⟩]),
  (512, [⟨byte 35, 453, [.saveHost, .mark, .savePath]⟩, ⟨byte 47, 513, [.saveHost, .mark]⟩,
    ⟨byte 58, 514, [.saveHost]⟩, ⟨byte 63, 456, [.saveHost, .mark, .savePath]⟩]),
  (513, [⟨byte 35, 453, [.savePath]⟩, ⟨byte 37, 243, []⟩, ⟨byte 63, 456, [.savePath]⟩, ⟨pathChar, 513, []⟩]),
  (514, [⟨byte 35, 453, [.mark, .savePort, .savePath]⟩, ⟨byte 47, 513, [.mark, .savePort]⟩,
    ⟨byte 63, 456, [.mark, .savePort, .savePath]⟩, ⟨digit, 515, [.mark]⟩]),
  (515, [⟨byte 35, 453, [.savePort, .mark, .savePath]⟩, ⟨byte 47, 513, [.savePort, .mark]⟩,
    ⟨byte 63, 456, [.savePort, .mark, .savePath]⟩, ⟨digit, 515, []⟩]),
  (516, [⟨byte 35, 453, [.saveHost, .mark, .savePath]⟩, ⟨byte 47, 513, [.saveHost, .mark]⟩,
    ⟨byte 58, 514, [.saveHost]⟩, ⟨byte 63, 456, [.saveHost, .mark, .savePath]⟩, ⟨digit, 517, []⟩]),
  (517, [⟨byte 35, 453, [.saveHost, .mark, .savePath]⟩, ⟨byte 47, 513, [.saveHost, .mark]⟩,
    ⟨byte 58, 514, [.saveHost]⟩, ⟨byte 63, 456, [.saveHost, .mark, .savePath]⟩, ⟨digit, 512, []⟩]),
  (518, [⟨byte 35, 453, [.saveHost, .mark, .savePath]⟩, ⟨byte 47, 513, [.saveHost, .mark]⟩, ⟨byte 53, 519, []⟩,
    ⟨byte 58, 514, [.saveHost]⟩, ⟨byte 63, 456, [.saveHost, .mark, .savePath]⟩, ⟨digit, 512, []⟩]),
  (519, [⟨byte 35, 453, [.saveHost, .mark, .savePath]⟩, ⟨byte 47, 513, [.saveHost, .mark]⟩,
    ⟨byte 58, 514, [.saveHost]⟩, ⟨byte 63, 456, [.saveHost, .mark, .savePath]⟩, ⟨upTo5, 512, []⟩]),
  (520, [⟨byte 35, 453, [.saveHost, .mark, .savePath]⟩, ⟨byte 37, 253, []⟩, ⟨byte 47, 513, [.saveHost, .mark]⟩,
    ⟨byte 58, 521, [.saveHost]⟩, ⟨byte 63, 456, [.saveHost, .mark, .savePath]⟩, ⟨byte 64, 522, [.saveUserinfo]⟩,
    ⟨nameChar, 520, []⟩]),
  (521, [⟨byte 35, 453, [.mark, .savePort, .savePath]⟩, ⟨byte 37, 256, []⟩, ⟨byte 47, 513, [.mark, .savePort]⟩,
    ⟨byte 63, 456, [.mark, .savePort, .savePath]⟩, ⟨byte 64, 522, [.saveUserinfo]⟩, ⟨digit, 542, [.mark]⟩,
    ⟨userChar, 255, []⟩]),
  (522, [⟨byte 2, 229, [.mark]⟩, ⟨byte 35, 453, [.mark, .saveHost, .savePath]⟩, ⟨byte 37, 258, [.mark]⟩,
    ⟨byte 47, 513, [.mark, .saveHost]⟩, ⟨byte 48, 524, [.mark]⟩, ⟨byte 49, 538, [.mark]⟩, ⟨byte 50, 540, [.mark]⟩,
    ⟨byte 58, 514, [.mark, .saveHost]⟩, ⟨byte 63, 456, [.mark, .saveHost, .savePath]⟩, ⟨byte 91, 260, [.mark]⟩,
    ⟨digit, 539, [.mark]⟩, ⟨nameChar, 523, [.mark]⟩]),
  (523, [⟨byte 35, 453, [.saveHost, .mark, .savePath]⟩, ⟨byte 37, 258, []⟩, ⟨byte 47, 513, [.saveHost, .mark]⟩,
    ⟨byte 58, 514, [.saveHost]⟩, ⟨byte 63, 456, [.saveHost, .mark, .savePath]⟩, ⟨nameChar, 523, []⟩]),
  (524, [⟨byte 35, 453, [.saveHost, .mark, .savePath]⟩, ⟨byte 37, 258, []⟩, ⟨byte 46, 525, []⟩,
    ⟨byte 47, 513, [.saveHost, .mark]⟩, ⟨byte 58, 514, [.saveHost]⟩, ⟨byte 63, 456, [.saveHost, .mark, .savePath]⟩,
    ⟨nameChar, 523, []⟩]),
  (525, [⟨byte 2, 233, []⟩, ⟨byte 35, 453, [.saveHost, .mark, .savePath]⟩, ⟨byte 37, 258, []⟩,
    ⟨byte 47, 513, [.saveHost, .mark]⟩, ⟨byte 48, 526, []⟩, ⟨byte 49, 534, []⟩, ⟨byte 50, 536, []⟩,
    ⟨byte 58, 514, [.saveHost]⟩, ⟨byte 63, 456, [.saveHost, .mark, .savePath]⟩, ⟨digit, 535, []⟩, ⟨nameChar, 523, []⟩]),
  (526, [⟨byte 35, 453, [.saveHost, .mark, .savePath]⟩, ⟨byte 37, 258, []⟩, ⟨byte 46, 527, []⟩,
    ⟨byte 47, 513, [.saveHost, .mark]⟩, ⟨byte 58, 514, [.saveHost]⟩, ⟨byte 63, 456, [.saveHost, .mark, .savePath]⟩,
    ⟨nameChar, 523, []⟩]),
  (527, [⟨byte 2, 237, []⟩, ⟨byte 35, 453, [.saveHost, .mark, .savePath]⟩, ⟨byte 37, 258, []⟩,
    ⟨byte 47, 513, [.saveHost, .mark]⟩, ⟨byte 48, 528, []⟩, ⟨byte 49, 530, []⟩, ⟨byte 50, 532, []⟩,
    ⟨byte 58, 514, [.saveHost]⟩, ⟨byte 63, 456, [.saveHost, .mark, .savePath]⟩, ⟨digit, 531, []⟩, ⟨nameChar, 523, []⟩]),
  (528, [⟨byte 35, 453, [.saveHost, .mark, .savePath]⟩, ⟨byte 37, 258, []⟩, ⟨byte 46, 529, []⟩,
    ⟨byte 47, 513, [.saveHost, .mark]⟩, ⟨byte 58, 514, [.saveHost]⟩, ⟨byte 63, 456, [.saveHost, .mark, .savePath]⟩,
    ⟨nameChar, 523, []⟩]),
  (529, [⟨byte 2, 241, []⟩, ⟨byte 35, 453, [.saveHost, .mark, .savePath]⟩, ⟨byte 37, 258, []⟩,
    ⟨byte 47, 513, [.saveHost, .mark]⟩, ⟨byte 58, 514, [.saveHost]⟩, ⟨byte 63, 456, [.saveHost, .mark, .savePath]⟩,
    ⟨nameChar, 523, []⟩]),
  (530, [⟨byte 35, 453, [.saveHost, .mark, .savePath]⟩, ⟨byte 37, 258, []⟩, ⟨byte 46, 529, []⟩,
    ⟨byte 47, 513, [.saveHost, .mark]⟩, ⟨byte 58, 514, [.saveHost]⟩, ⟨byte 63, 456, [.saveHost, .mark, .savePath]⟩,
    ⟨digit, 531, []⟩, ⟨nameChar, 523, []⟩]),
  (531, [⟨byte 35, 453, [.saveHost, .mark, .savePath]⟩, ⟨byte 37, 258, []⟩, ⟨byte 46, 529, []⟩,
    ⟨byte 47, 513, [.saveHost, .mark]⟩, ⟨byte 58, 514, [.saveHost]⟩, ⟨byte 63, 456, [.saveHost, .mark, .savePath]⟩,
    ⟨digit, 528, []⟩, ⟨nameChar, 523, []⟩]),
  (532, [⟨byte 35, 453, [.saveHost, .mark, .savePath]⟩, ⟨byte 37, 258, []⟩, ⟨byte 46, 529, []⟩,
    ⟨byte 47, 513, [.saveHost, .mark]⟩, ⟨byte 53, 533, []⟩, ⟨byte 58, 514, [.saveHost]⟩,
    ⟨byte 63, 456, [.saveHost, .mark, .savePath]⟩, ⟨digit, 528, []⟩, ⟨nameChar, 523, []⟩]),
  (533, [⟨byte 35, 453, [.saveHost, .mark, .savePath]⟩, ⟨byte 37, 258, []⟩, ⟨byte 46, 529, []⟩,
    ⟨byte 47, 513, [.saveHost, .mark]⟩, ⟨byte 58, 514, [.saveHost]⟩, ⟨byte 63, 456, [.saveHost, .mark, .savePath]⟩,
    ⟨upTo5, 528, []⟩, ⟨nameChar, 523, []⟩]),
  (534, [⟨byte 35, 453, [.saveHost, .mark, .savePath]⟩, ⟨byte 37, 258, []⟩, ⟨byte 46, 527, []⟩,
    ⟨byte 47, 513, [.saveHost, .mark]⟩, ⟨byte 58, 514, [.saveHost]⟩, ⟨byte 63, 456, [.saveHost, .mark, .savePath]⟩,
    ⟨digit, 535, []⟩, ⟨nameChar, 523, []⟩]),
  (535, [⟨byte 35, 453, [.saveHost, .mark, .savePath]⟩, ⟨byte 37, 258, []⟩, ⟨byte 46, 527, []⟩,
    ⟨byte 47, 513, [.saveHost, .mark]⟩, ⟨byte 58, 514, [.saveHost]⟩, ⟨byte 63, 456, [.saveHost, .mark, .savePath]⟩,
    ⟨digit, 526, []⟩, ⟨nameChar, 523, []⟩]),
  (536, [⟨byte 35, 453, [.saveHost, .mark, .savePath]⟩, ⟨byte 37, 258, []⟩, ⟨byte 46, 527, []⟩,
    ⟨byte 47, 513, [.saveHost, .mark]⟩, ⟨byte 53, 537, []⟩, ⟨byte 58, 514, [.saveHost]⟩,
    ⟨byte 63, 456, [.saveHost, .mark, .savePath]⟩, ⟨digit, 526, []⟩, ⟨nameChar, 523, []⟩]),
  (537, [⟨byte 35, 453, [.saveHost, .mark, .savePath]⟩, ⟨byte 37, 258, []⟩, ⟨byte 46, 527, []⟩,
    ⟨byte 47, 513, [.saveHost, .mark]⟩, ⟨byte 58, 514, [.saveHost]⟩, ⟨byte 63, 456, [.saveHost, .mark, .savePath]⟩,
    ⟨upTo5, 526, []⟩, ⟨nameChar, 523, []⟩]),
  (538, [⟨byte 35, 453, [.saveHost, .mark, .savePath]⟩, ⟨byte 37, 258, []⟩, ⟨byte 46, 525, []⟩,
    ⟨byte 47, 513, [.saveHost, .mark]⟩, ⟨byte 58, 514, [.saveHost]⟩, ⟨byte 63, 456, [.saveHost, .mark, .savePath]⟩,
    ⟨digit, 539, []⟩, ⟨nameChar, 523, []⟩]),
  (539, [⟨byte 35, 453, [.saveHost, .mark, .savePath]⟩, ⟨byte 37, 258, []⟩, ⟨byte 46, 525, []⟩,
    ⟨byte 47, 513, [.saveHost, .mark]⟩, ⟨byte 58, 514, [.saveHost]⟩, ⟨byte 63, 456, [.saveHost, .mark, .savePath]⟩,
    ⟨digit, 524, []⟩, ⟨nameChar, 523, []⟩]),
  (540, [⟨byte 35, 453, [.saveHost, .mark, .savePath]⟩, ⟨byte 37, 258, []⟩, ⟨byte 46, 525, []⟩,
    ⟨byte 47, 513, [.saveHost, .mark]⟩, ⟨byte 53, 541, []⟩, ⟨byte 58, 514, [.saveHost]⟩,
    ⟨byte 63, 456, [.saveHost, .mark, .savePath]⟩, ⟨digit, 524, []⟩, ⟨nameChar, 523, []⟩]),
  (541, [⟨byte 35, 453, [.saveHost, .mark, .savePath]⟩, ⟨byte 37, 258, []⟩, ⟨byte 46, 525, []⟩,
    ⟨byte 47, 513, [.saveHost, .mark]⟩, ⟨byte 58, 514, [.saveHost]⟩, ⟨byte 63, 456, [.saveHost, .mark, .savePath]⟩,
    ⟨upTo5, 524, []⟩, ⟨nameChar, 523, []⟩]),
  (542, [⟨byte 35, 453, [.savePort, .mark, .savePath]⟩, ⟨byte 37, 256, []⟩, ⟨byte 47, 513, [.savePort, .mark]⟩,
    ⟨byte 63, 456, [.savePort, .mark, .savePath]⟩, ⟨byte 64, 522, [.saveUserinfo]⟩, ⟨digit, 542, []⟩,
    ⟨userChar, 255, []⟩]),
  (543, [⟨byte 35, 453, [.saveHost, .mark, .savePath]⟩, ⟨byte 37, 253, []⟩, ⟨byte 46, 544, []⟩,
    ⟨byte 47, 513, [.saveHost, .mark]⟩, ⟨byte 58, 521, [.saveHost]⟩, ⟨byte 63, 456, [.saveHost, .mark, .savePath]⟩,
    ⟨byte 64, 522, [.saveUserinfo]⟩, ⟨nameChar, 520, []⟩]),
  (544, [⟨byte 2, 233, []⟩, ⟨byte 35, 453, [.saveHost, .mark, .savePath]⟩, ⟨byte 37, 253, []⟩,
    ⟨byte 47, 513, [.saveHost, .mark]⟩, ⟨byte 48, 545, []⟩, ⟨byte 49, 553, []⟩, ⟨byte 50, 555, []⟩,
    ⟨byte 58, 521, [.saveHost]⟩, ⟨byte 63, 456, [.saveHost, .mark, .savePath]⟩, ⟨byte 64, 522, [.saveUserinfo]⟩,
    ⟨digit, 554, []⟩, ⟨nameChar, 520, []⟩]),
  (545, [⟨byte 35, 453, [.saveHost, .mark, .savePath]⟩, ⟨byte 37, 253, []⟩, ⟨byte 46, 546, []⟩,
    ⟨byte 47, 513, [.saveHost, .mark]⟩, ⟨byte 58, 521, [.saveHost]⟩, ⟨byte 63, 456, [.saveHost, .mark, .savePath]⟩,
    ⟨byte 64, 522, [.saveUserinfo]⟩, ⟨nameChar, 520, []⟩]),
  (546, [⟨byte 2, 237, []⟩, ⟨byte 35, 453, [.saveHost, .mark, .savePath]⟩, ⟨byte 37, 253, []⟩,
    ⟨byte 47, 513, [.saveHost, .mark]⟩, ⟨byte 48, 547, []⟩, ⟨byte 49, 549, []⟩, ⟨byte 50, 551, []⟩,
    ⟨byte 58, 521, [.saveHost]⟩, ⟨byte 63, 456, [.saveHost, .mark, .savePath]⟩, ⟨byte 64, 522, [.saveUserinfo]⟩,
    ⟨digit, 550, []⟩, ⟨nameChar, 520, []⟩]),
  (547, [⟨byte 35, 453, [.saveHost, .mark, .savePath]⟩, ⟨byte 37, 253, []⟩, ⟨byte 46, 548, []⟩,
    ⟨byte 47, 513, [.saveHost, .mark]⟩, ⟨byte 58, 521, [.saveHost]⟩, ⟨byte 63, 456, [.saveHost, .mark, .savePath]⟩,
    ⟨byte 64, 522, [.saveUserinfo]⟩, ⟨nameChar, 520, []⟩]),
  (548, [⟨byte 2, 241, []⟩, ⟨byte 35, 453, [.saveHost, .mark, .savePath]⟩, ⟨byte 37, 253, []⟩,
    ⟨byte 47, 513, [.saveHost, .mark]⟩, ⟨byte 58, 521, [.saveHost]⟩, ⟨byte 63, 456, [.saveHost, .mark, .savePath]⟩,
    ⟨byte 64, 522, [.saveUserinfo]⟩, ⟨nameChar, 520, []⟩]),
  (549, [⟨byte 35, 453, [.saveHost, .mark, .savePath]⟩, ⟨byte 37, 253, []⟩, ⟨byte 46, 548, []⟩,
    ⟨byte 47, 513, [.saveHost, .mark]⟩, ⟨byte 58, 521, [.saveHost]⟩, ⟨byte 63, 456, [.saveHost, .mark, .savePath]⟩,
    ⟨byte 64, 522, [.saveUserinfo]⟩, ⟨digit, 550, []⟩, ⟨nameChar, 520, []⟩]),
  (550, [⟨byte 35, 453, [.saveHost, .mark, .savePath]⟩, ⟨byte 37, 253, []⟩, ⟨byte 46, 548, []⟩,
    ⟨byte 47, 513, [.saveHost, .mark]⟩, ⟨byte 58, 521, [.saveHost]⟩, ⟨byte 63, 456, [.saveHost, .mark, .savePath]⟩,
    ⟨byte 64, 522, [.saveUserinfo]⟩, ⟨digit, 547, []⟩, ⟨nameChar, 520, []⟩]),
  (551, [⟨byte 35, 453, [.saveHost, .mark, .savePath]⟩, ⟨byte 37, 253, []⟩, ⟨byte 46, 548, []⟩,
    ⟨byte 47, 513, [.saveHost, .mark]⟩, ⟨byte 53, 552, []⟩, ⟨byte 58, 521, [.saveHost]⟩,
    ⟨byte 63, 456, [.saveHost, .mark, .savePath]⟩, ⟨byte 64, 522, [.saveUserinfo]⟩, ⟨digit, 547, []⟩,
    ⟨nameChar, 520, []⟩]),
  (552, [⟨byte 35, 453, [.saveHost, .mark, .savePath]⟩, ⟨byte 37, 253, []⟩, ⟨byte 46, 548, []⟩,
    ⟨byte 47, 513, [.saveHost, .mark]⟩, ⟨byte 58, 521, [.saveHost]⟩, ⟨byte 63, 456, [.saveHost, .mark, .savePath]⟩,
    ⟨byte 64, 522, [.saveUserinfo]⟩, ⟨upTo5, 547, []⟩, ⟨nameChar, 520, []⟩]),
  (553, [⟨byte 35, 453, [.saveHost, .mark, .savePath]⟩, ⟨byte 37, 253, []⟩, ⟨byte 46, 546, []⟩,
    ⟨byte 47, 513, [.saveHost, .mark]⟩, ⟨byte 58, 521, [.saveHost]⟩, ⟨byte 63, 456, [.saveHost, .mark, .savePath]⟩,
    ⟨byte 64, 522, [.saveUserinfo]⟩, ⟨digit, 554, []⟩, ⟨nameChar, 520, []⟩]),
  (554, [⟨byte 35, 453, [.saveHost, .mark, .savePath]⟩, ⟨byte 37, 253, []⟩, ⟨byte 46, 546, []⟩,
    ⟨byte 47, 513, [.saveHost, .mark]⟩, ⟨byte 58, 521, [.saveHost]⟩, ⟨byte 63, 456, [.saveHost, .mark, .savePath]⟩,
    ⟨byte 64, 522, [.saveUserinfo]⟩, ⟨digit, 545, []⟩, ⟨nameChar, 520, []⟩]),
  (555, [⟨byte 35, 453, [.saveHost, .mark, .savePath]⟩, ⟨byte 37, 253, []⟩, ⟨byte 46, 546, []⟩,
    ⟨byte 47, 513, [.saveHost, .mark]⟩, ⟨byte 53, 556, []⟩, ⟨byte 58, 521, [.saveHost]⟩,
    ⟨byte 63, 456, [.saveHost, .mark, .savePath]⟩, ⟨byte 64, 522, [.saveUserinfo]⟩, ⟨digit, 545, []⟩,
    ⟨nameChar, 520, []⟩]),
  (556, [⟨byte 35, 453, [.saveHost, .mark, .savePath]⟩, ⟨byte 37, 253, []⟩, ⟨byte 46, 546, []⟩,
    ⟨byte 47, 513, [.saveHost, .mark]⟩, ⟨byte 58, 521, [.saveHost]⟩, ⟨byte 63, 456, [.saveHost, .mark, .savePath]⟩,
    ⟨byte 64, 522, [.saveUserinfo]⟩, ⟨upTo5, 545, []⟩, ⟨nameChar, 520, []⟩]),
  (557, [⟨byte 35, 453, [.saveHost, .mark, .savePath]⟩, ⟨byte 37, 253, []⟩, ⟨byte 46, 544, []⟩,
    ⟨byte 47, 513, [.saveHost, .mark]⟩, ⟨byte 58, 521, [.saveHost]⟩, ⟨byte 63, 456, [.saveHost, .mark, .savePath]⟩,
    ⟨byte 64, 522, [.saveUserinfo]⟩, ⟨digit, 558, []⟩, ⟨nameChar, 520, []⟩]),
  (558, [⟨byte 35, 453, [.saveHost, .mark, .savePath]⟩, ⟨byte 37, 253, []⟩, ⟨byte 46, 544, []⟩,
    ⟨byte 47, 513, [.saveHost, .mark]⟩, ⟨byte 58, 521, [.saveHost]⟩, ⟨byte 63, 456, [.saveHost, .mark, .savePath]⟩,
    ⟨byte 64, 522, [.saveUserinfo]⟩, ⟨digit, 543, []⟩, ⟨nameChar, 520, []⟩]),
  (559, [⟨byte 35, 453, [.saveHost, .mark, .savePath]⟩, ⟨byte 37, 253, []⟩, ⟨byte 46, 544, []⟩,
    ⟨byte 47, 513, [.saveHost, .mark]⟩, ⟨byte 53, 560, []⟩, ⟨byte 58, 521, [.saveHost]⟩,
    ⟨byte 63, 456, [.saveHost, .mark, .savePath]⟩, ⟨byte 64, 522, [.saveUserinfo]⟩, ⟨digit, 543, []⟩,
    ⟨nameChar, 520, []⟩]),
  (560, [⟨byte 35, 453, [.saveHost, .mark, .savePath]⟩, ⟨byte 37, 253, []⟩, ⟨byte 46, 544, []⟩,
    ⟨byte 47, 513, [.saveHost, .mark]⟩, ⟨byte 58, 521, [.saveHost]⟩, ⟨byte 63, 456, [.saveHost, .mark, .savePath]⟩,
    ⟨byte 64, 522, [.saveUserinfo]⟩, ⟨upTo5, 543, []⟩, ⟨nameChar, 520, []⟩])]

/-- What is run at the end of the text. -/
def eofActions (cs : Nat) : List UriAction :=
  if cs = 453 then [.mark, .saveFragment]
  else if cs = 454 then [.saveFragment]
  else if cs = 456 then [.mark, .saveQuery]
  else if cs = 457 then [.saveQuery]
  else if cs = 459 ∨ cs = 469 then [.mark, .saveHost]
  else if cs = 461 ∨ cs = 468 then [.mark, .savePort]
  else if cs = 462 ∨ cs = 489 then [.savePort]
  else if 460 ≤ cs ∧ cs ≤ 507 then [.saveHost]
  else if cs = 511 ∨ cs = 522 then [.mark, .saveHost, .savePath]
  else if cs = 513 then [.savePath]
  else if cs = 514 ∨ cs = 521 then [.mark, .savePort, .savePath]
  else if cs = 515 ∨ cs = 542 then [.savePort, .mark, .savePath]
  else if 512 ≤ cs ∧ cs ≤ 560 then [.saveHost, .mark, .savePath]
  else []

end UriParser
end MyHttp
